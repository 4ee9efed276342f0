import ChipEight.Checked
import ChipEight.Memory
import Mathlib.Data.List.DropRight

/-!
# ChipEight.Proofs.LastWrite — memory keeps what was written last

A history of memory is a list of requests, and a refused one leaves no trace (`Memory.after`).  Main
statement: memory refuses exactly what reaches past its end, a byte is what the last request that was
granted and covers it has put there since memory was cleared, and words and blocks are made of those
bytes (`remembers_last_write`).
-/

namespace ChipEight.Memory

/-- A change that memory is asked for. -/
inductive Request where
  | byte (address : Nat) (b : UInt8)
  | block (address : Nat) (bytes : List UInt8)
  | clear
  deriving DecidableEq, Repr

namespace Request

/-- A byte to be written lies past the end of memory, or a block reaches past it. -/
def Overruns : Request → Prop
  | .byte address _ => size ≤ address
  | .block address bytes => size < address + bytes.length
  | .clear => False

instance (q : Request) : Decidable q.Overruns :=
  match q with
  | .byte address _ => inferInstanceAs (Decidable (size ≤ address))
  | .block address bytes => inferInstanceAs (Decidable (size < address + bytes.length))
  | .clear => inferInstanceAs (Decidable False)

/-- The byte meant for address `a`, if there is one. -/
def byteFor? (a : Nat) : Request → Option UInt8
  | .byte address b => if address = a then some b else none
  | .block address bytes => if address ≤ a then bytes[a - address]? else none
  | .clear => none

/-- The byte that a request puts at address `a` when it is granted. -/
def puts? (a : Nat) (q : Request) : Option UInt8 := if q.Overruns then none else q.byteFor? a

end Request

/-- What memory does about a request. -/
def answer (m : Memory) : Request → Except Breach Memory
  | .byte address b => m.writeByte address b
  | .block address bytes => m.writeBlock address bytes
  | .clear => .ok blank

/-- Memory after a request, granted or refused. -/
def obey (m : Memory) (q : Request) : Memory :=
  match m.answer q with
  | .ok after => after
  | .error _ => m

/-- Memory after a history. -/
def after (m : Memory) (history : List Request) : Memory := history.foldl obey m

/-- The requests since memory was last cleared. -/
def sinceClear (history : List Request) : List Request := history.rtakeWhile fun q => q ≠ .clear

/-- The byte last put at address `a` since memory was cleared. -/
def lastPut? (history : List Request) (a : Nat) : Option UInt8 :=
  ((sinceClear history).filterMap (Request.puts? a)).getLast?

variable {m : Memory} {q : Request} {history : List Request} {a length : Nat}

/-! ### One request -/

theorem answer_of_overruns (h : q.Overruns) (m : Memory) : ∃ e, m.answer q = .error e := by
  cases q with
  | byte address b => exact ⟨_, if_neg (Nat.not_lt_of_le h)⟩
  | block address bytes => exact ⟨_, if_neg (Nat.not_le_of_lt h)⟩
  | clear => cases h

theorem obey_of_overruns (h : q.Overruns) (m : Memory) : m.obey q = m := by
  obtain ⟨e, he⟩ := answer_of_overruns h m
  rw [obey, he]

/-- What a granted request leaves at each address. -/
theorem exists_answer (h : ¬ q.Overruns) (m : Memory) :
    ∃ after, m.answer q = .ok after ∧ ∀ a (ha : a < size),
      after[a] = if q = .clear then 0 else (q.byteFor? a).getD m[a] := by
  cases q with
  | byte address b =>
    refine ⟨_, writeByte_of_lt m (Nat.lt_of_not_le h) b, fun a ha => ?_⟩
    rw [getElem_put]
    by_cases hat : address = a <;> simp [Request.byteFor?, hat]
  | block address bytes =>
    refine ⟨_, writeBlock_of_contains m (Nat.le_of_not_lt h), fun a ha => ?_⟩
    rw [getElem_store]
    by_cases hle : address ≤ a
    · by_cases hk : a - address < bytes.length <;> simp [Request.byteFor?, hle, hk]
    · simp [Request.byteFor?, hle]
  | clear => exact ⟨blank, rfl, fun a ha => getElem_blank ha⟩

theorem getElem_obey (m : Memory) (q : Request) (ha : a < size) :
    (m.obey q)[a] = if q = .clear then 0 else (q.puts? a).getD m[a] := by
  by_cases h : q.Overruns
  · have hne : q ≠ .clear := by
      rintro rfl
      exact h
    simp only [obey_of_overruns h, if_neg hne, Request.puts?, if_pos h, Option.getD_none]
  · obtain ⟨after, hanswer, hbytes⟩ := exists_answer h m
    simp only [obey, hanswer, hbytes a ha, Request.puts?, if_neg h]

theorem exists_error_iff : (∃ e, m.answer q = .error e) ↔ q.Overruns := by
  refine ⟨fun ⟨e, he⟩ => ?_, fun h => answer_of_overruns h m⟩
  by_contra h
  obtain ⟨after, hanswer, -⟩ := exists_answer h m
  rw [hanswer] at he
  cases he

/-! ### A history of requests -/

theorem after_concat (m : Memory) (history : List Request) (q : Request) :
    m.after (history ++ [q]) = (m.after history).obey q := by
  rw [after, List.foldl_concat]
  rfl

theorem lastPut?_concat_clear (history : List Request) (a : Nat) :
    lastPut? (history ++ [.clear]) a = none := by
  simp [lastPut?, sinceClear]

theorem lastPut?_concat (h : q ≠ .clear) (history : List Request) (a : Nat) :
    lastPut? (history ++ [q]) a = (q.puts? a).or (lastPut? history a) := by
  rw [lastPut?, sinceClear, List.rtakeWhile_concat, if_pos (decide_eq_true h),
    List.filterMap_append, List.getLast?_append]
  cases hq : q.puts? a <;> simp [hq, lastPut?, sinceClear]

theorem getElem_after (history : List Request) (ha : a < size) :
    (blank.after history)[a] = (lastPut? history a).getD 0 := by
  -- the last request decides what is left of the ones before it
  induction history using List.reverseRecOn with
  | nil => exact getElem_blank ha
  | append_singleton history q ih =>
    simp only [after_concat, getElem_obey, ih]
    by_cases hq : q = .clear
    · rw [if_pos hq, hq, lastPut?_concat_clear]
      rfl
    · rw [if_neg hq, lastPut?_concat hq]
      cases q.puts? a <;> rfl

/-! ### Reading -/

/-- The check that bytes lie within memory, made on numbers of 64 bits: a sum that is no such number
is past the end anyway. -/
theorem contains_iff_checked :
    Contains a length ↔ ∃ past, Checked.add a length = .ok past ∧ past ≤ size := by
  constructor
  · intro h
    have hsum : a + length < UInt64.size := Nat.lt_of_le_of_lt h (by decide)
    exact ⟨a + length, Checked.add_of_lt hsum, h⟩
  · rintro ⟨past, hpast, hle⟩
    rw [Checked.eq_add_of_add_eq_ok hpast] at hle
    exact hle

theorem exists_readBlock_iff : (∃ bytes, m.readBlock a length = .ok bytes) ↔ a + length ≤ size := by
  by_cases h : a + length ≤ size
  · exact iff_of_true ⟨_, readBlock_of_le m h⟩ h
  · simp [readBlock, h]

theorem exists_readWord_iff : (∃ w, m.readWord a = .ok w) ↔ a + 2 ≤ size := by
  by_cases h : a + 2 ≤ size
  · exact iff_of_true ⟨_, readWord_of_le m h⟩ h
  · simp [readWord, h]

/-- A block is read byte by byte. -/
theorem readByte_of_readBlock {bytes : List UInt8} (h : m.readBlock a length = .ok bytes) :
    bytes.length = length ∧ ∀ k b, bytes[k]? = some b → m.readByte (a + k) = .ok b := by
  have hfits := exists_readBlock_iff.mp ⟨bytes, h⟩
  rw [readBlock_of_le m hfits] at h
  cases h
  refine ⟨length_block m hfits, fun k b hk => ?_⟩
  obtain ⟨hlt, rfl⟩ := List.getElem?_eq_some_iff.mp hk
  rw [length_block] at hlt
  rw [readByte_of_lt m (by omega)]
  simp [block]

/-- A word is read as two bytes, the high one first. -/
theorem readByte_of_readWord {w : UInt16} (h : m.readWord a = .ok w) :
    ∃ high low, m.readByte a = .ok high ∧ m.readByte (a + 1) = .ok low ∧
      w.toNat = 256 * high.toNat + low.toNat := by
  have hfits := exists_readWord_iff.mp ⟨w, h⟩
  rw [readWord_of_le m hfits] at h
  cases h
  exact ⟨_, _, readByte_of_lt m (by omega), readByte_of_lt m (by omega), Word.toNat_join _ _⟩

/-- After any history, from memory of zeros on and with addresses and blocks of any size, a request is
refused exactly if it reaches past the end of memory, and changes nothing then.  The byte at an address
is the one last put there by a request that was granted since memory was cleared, or zero.  A block or
a word can be read exactly if it lies within memory, and consists of the bytes there, the high byte of
a word first.  The sum that this is decided by may be computed in 64 bits. -/
theorem remembers_last_write (history : List Request) :
    let m := blank.after history
    (∀ q, ((∃ e, m.answer q = .error e) ↔ q.Overruns) ∧
      (q.Overruns → blank.after (history ++ [q]) = m)) ∧
    (∀ a, a < 4096 → m.readByte a = .ok ((lastPut? history a).getD 0)) ∧
    (∀ a length,
      ((∃ bytes, m.readBlock a length = .ok bytes) ↔ a + length ≤ 4096) ∧
      (Contains a length ↔ ∃ past, Checked.add a length = .ok past ∧ past ≤ 4096) ∧
      ∀ bytes, m.readBlock a length = .ok bytes →
        bytes.length = length ∧ ∀ k b, bytes[k]? = some b → m.readByte (a + k) = .ok b) ∧
    ∀ a,
      ((∃ w, m.readWord a = .ok w) ↔ a + 2 ≤ 4096) ∧
      ∀ w, m.readWord a = .ok w →
        ∃ high low, m.readByte a = .ok high ∧ m.readByte (a + 1) = .ok low ∧
          w.toNat = 256 * high.toNat + low.toNat := by
  intro m
  refine ⟨fun q => ⟨exists_error_iff, fun h => ?_⟩, fun a ha => ?_, fun a length => ?_, fun a => ?_⟩
  · rw [after_concat, obey_of_overruns h]
  · rw [readByte_of_lt m ha]
    exact congrArg Except.ok (getElem_after history ha)
  · exact ⟨exists_readBlock_iff, contains_iff_checked, fun _ h => readByte_of_readBlock h⟩
  · exact ⟨exists_readWord_iff, fun _ h => readByte_of_readWord h⟩

/-- Writes that overlap after memory was cleared: the byte in the middle of the block is that of the
later write, the one before memory was cleared is forgotten, and neither the block that reaches past
the end nor the byte at the highest address of 64 bits leaves a trace. -/
theorem remembers_last_write_overlap :
    let history : List Request :=
      [.byte 5 1, .clear, .block 510 [1, 2, 3, 4], .byte 511 9, .block 4095 [7, 8], .block 4096 []]
    let highest : Request := .byte (UInt64.size - 1) 3
    let m := blank.after history
    (∃ e, m.answer highest = .error e) ∧ blank.after (history ++ [highest]) = m ∧
      m.readByte 5 = .ok 0 ∧ m.readByte 4095 = .ok 0 ∧
      (∃ w, m.readWord 511 = .ok w ∧ w.toNat = 0x0903) ∧
      ∃ bytes, m.readBlock 510 4 = .ok bytes ∧ bytes.length = 4 := by
  intro history highest m
  obtain ⟨hrequest, hbyte, hblock, hword⟩ := remembers_last_write history
  have hover : highest.Overruns := by decide
  obtain ⟨hrefused, hkept⟩ := hrequest highest
  obtain ⟨w, hw⟩ := (hword 511).1.mpr (by decide)
  obtain ⟨high, low, hhigh, hlow, hsum⟩ := (hword 511).2 w hw
  obtain ⟨hgranted, -, hbytes⟩ := hblock 510 4
  obtain ⟨bytes, hread⟩ := hgranted.mpr (by decide)
  have hnine : high = 9 := Except.ok.inj (hhigh.symm.trans (hbyte 511 (by decide)))
  have hthree : low = 3 := Except.ok.inj (hlow.symm.trans (hbyte 512 (by decide)))
  refine ⟨hrefused.mpr hover, hkept hover, hbyte 5 (by decide), hbyte 4095 (by decide),
    ⟨w, hw, ?_⟩, bytes, hread, (hbytes bytes hread).1⟩
  rw [hsum, hnine, hthree]
  rfl

end ChipEight.Memory
