import ChipEight.Instr.Mnemonic
import Mathlib.Algebra.Group.Nat.Defs

/-!
# ChipEight.Proofs.Mnemonics — the texts of instructions

The text of an instruction stands on one line (`Instr.oneLine_mnemonic`).  Main statement: it is the
text of no other instruction (`Instr.mnemonic_inj`).  For the name ends at the first blank and an
operand at the next comma, an operand is read back from its text (`Operand.read?_text`), and no two
instructions have both the name and the operands in common (`Instr.eq_of_name_of_operands`).
-/

namespace ChipEight

/-! ### Texts on one line -/

/-- The text has no end of line in it. -/
def OneLine (s : String) : Prop := '\n' ∉ s.toList

instance (s : String) : Decidable (OneLine s) := inferInstanceAs (Decidable (¬ _))

namespace OneLine

variable {s t : String}

theorem append (hs : OneLine s) (ht : OneLine t) : OneLine (s ++ t) := by
  rw [OneLine, String.toList_append, List.mem_append, not_or]
  exact ⟨hs, ht⟩

theorem join {l : List String} (h : ∀ s ∈ l, OneLine s) : OneLine (String.join l) := by
  rw [OneLine, String.toList_join, List.mem_flatMap]
  rintro ⟨s, hs, hc⟩
  exact h s hs hc

end OneLine

/-! ### Hexadecimal digits -/

namespace Hex

variable {n : Nat}

theorem exists_eq_digit {c : Char} (h : c ∈ digits n) : ∃ d : Fin 16, c = digit d := by
  fun_induction digits n with
  | case1 n hn =>
    rw [List.mem_singleton] at h
    exact ⟨⟨n, hn⟩, h⟩
  | case2 n hn ih =>
    rcases List.mem_append.mp h with h | h
    · exact ih h
    · rw [List.mem_singleton] at h
      exact ⟨⟨n % 16, Nat.mod_lt _ (by decide)⟩, h⟩

/-- The zeros in front are digits too. -/
theorem exists_eq_digit_of_mem_padded {width : Nat} {c : Char} (h : c ∈ (padded width n).toList) :
    ∃ d : Fin 16, c = digit d := by
  rw [toList_padded, paddedDigits, List.mem_append] at h
  rcases h with h | h
  · exact ⟨0, List.eq_of_mem_replicate h⟩
  · exact exists_eq_digit h

theorem not_mem_padded {c : Char} (hc : ∀ d : Fin 16, digit d ≠ c) (width n : Nat) :
    c ∉ (padded width n).toList := by
  intro h
  obtain ⟨d, hd⟩ := exists_eq_digit_of_mem_padded h
  exact hc d hd.symm

theorem oneLine_padded (width n : Nat) : OneLine (padded width n) :=
  not_mem_padded (by decide) width n

/-- A number below a power of sixteen has no more digits than the exponent. -/
theorem length_digits_le {width : Nat} (h : n < 16 ^ (width + 1)) :
    (digits n).length ≤ width + 1 := by
  fun_induction digits n generalizing width with
  | case1 n hn => simp
  | case2 n hn ih =>
    rw [List.length_append, List.length_singleton]
    cases width with
    | zero => omega
    | succ width =>
      have hdiv : n / 16 < 16 ^ (width + 1) := by
        rw [Nat.div_lt_iff_lt_mul (by decide)]
        exact h
      have hle := ih hdiv
      omega

theorem length_padded {width : Nat} (h : n < 16 ^ (width + 1)) :
    (padded (width + 1) n).length = width + 1 := by
  have hle := length_digits_le h
  rw [← String.length_toList, toList_padded, paddedDigits, List.length_append,
    List.length_replicate]
  omega

theorem length_paddedDigits {width : Nat} (h : n < 16 ^ (width + 1)) :
    (paddedDigits (width + 1) n).length = width + 1 := by
  rw [← toList_padded, String.length_toList, length_padded h]

end Hex

/-! ### Operands -/

namespace Operand

/-- The characters that operands are written with. -/
def letters : List Char :=
  (List.range 16).map Hex.digit ++ ['v', 'x', 'I', '[', ']', 'T', 'S', 'K']

theorem digit_mem_letters (d : Fin 16) : Hex.digit d ∈ letters :=
  List.mem_append_left _ (List.mem_map_of_mem (List.mem_range.mpr d.isLt))

/-- The text of a byte or an address. -/
theorem toList_number (width n : Nat) :
    ("0x" ++ Hex.padded width n).toList = '0' :: 'x' :: Hex.paddedDigits width n := by
  rw [String.toList_append, Hex.toList_padded]
  rfl

theorem mem_letters_of_all {s : String} {c : Char} (hs : s.toList.all letters.contains = true)
    (h : c ∈ s.toList) : c ∈ letters :=
  List.contains_iff_mem.mp (List.all_eq_true.mp hs c h)

theorem mem_letters {o : Operand} {c : Char} (h : c ∈ o.text.toList) : c ∈ letters := by
  have hreg : ∀ r : Reg, r.text.toList.all letters.contains = true := by decide
  have hnibble : ∀ n : Nibble, (toString n.val).toList.all letters.contains = true := by decide
  have hnumber : ∀ width n, c ∈ ("0x" ++ Hex.padded width n).toList → c ∈ letters := by
    intro width n h
    rw [String.toList_append, List.mem_append] at h
    rcases h with h | h
    · exact mem_letters_of_all (by decide) h
    · obtain ⟨d, rfl⟩ := Hex.exists_eq_digit_of_mem_padded h
      exact digit_mem_letters d
  cases o with
  | reg r => exact mem_letters_of_all (hreg r) h
  | byte k => exact hnumber 2 _ h
  | addr a => exact hnumber 3 _ h
  | nibble n => exact mem_letters_of_all (hnibble n) h
  | index | atIndex | delay | sound | key | glyph | digits =>
    exact mem_letters_of_all (by decide) h

theorem oneLine_text (o : Operand) : OneLine o.text := fun h => absurd (mem_letters h) (by decide)

theorem comma_not_mem_text (o : Operand) : ',' ∉ o.text.toList :=
  fun h => absurd (mem_letters h) (by decide)

/-- The operand that is written in this way. -/
def read? : List Char → Option Operand
  | 'v' :: ds => (Reg.ofNat? (Hex.value ds)).map .reg
  | '0' :: 'x' :: ds =>
    if ds.length = 2 then some (.byte (UInt8.ofNat (Hex.value ds)))
    else (Addr.ofNat? (Hex.value ds)).map .addr
  | ['I'] => some .index
  | ['[', 'I', ']'] => some .atIndex
  | ['D', 'T'] => some .delay
  | ['S', 'T'] => some .sound
  | ['K'] => some .key
  | ['F'] => some .glyph
  | ['B'] => some .digits
  | ds => (Nibble.ofNat? (ds.foldl (fun n c => 10 * n + Hex.digitValue c) 0)).map .nibble

theorem read?_text (o : Operand) : read? o.text.toList = some o := by
  cases o with
  | reg r =>
    revert r
    decide
  | byte k =>
    have hlength : (Hex.paddedDigits 2 k.toNat).length = 2 := Hex.length_paddedDigits k.toNat_lt
    rw [text, toList_number]
    show (if (Hex.paddedDigits 2 k.toNat).length = 2 then _ else _) = _
    rw [if_pos hlength, Hex.value_paddedDigits, UInt8.ofNat_toNat]
  | addr a =>
    have hlength : (Hex.paddedDigits 3 a).length = 3 := Hex.length_paddedDigits a.isLt
    rw [text, Addr.text, toList_number]
    show (if (Hex.paddedDigits 3 a).length = 2 then _ else _) = _
    rw [if_neg (by omega), Hex.value_paddedDigits, Addr.ofNat?, dif_pos a.isLt]
    rfl
  | nibble n =>
    revert n
    decide
  | index | atIndex | delay | sound | key | glyph | digits => decide

theorem text_inj {o p : Operand} (h : o.text.toList = p.text.toList) : o = p := by
  have hread := congrArg read? h
  rw [read?_text, read?_text] at hread
  exact Option.some.inj hread

end Operand

/-! ### Names and operands -/

/-- Of two texts that both go on with `c` or not at all after a part without it, the parts are the
same, and so are the rests. -/
theorem eq_and_eq_of_append_eq {c : Char} {a b s t : List Char} (ha : c ∉ a) (hb : c ∉ b)
    (hs : s.takeWhile (· != c) = []) (ht : t.takeWhile (· != c) = []) (h : a ++ s = b ++ t) :
    a = b ∧ s = t := by
  have hfront : ∀ {l r : List Char}, c ∉ l → r.takeWhile (· != c) = [] →
      (l ++ r).takeWhile (· != c) = l := by
    intro l r hl hr
    have hall : ∀ d ∈ l, (d != c) = true := by
      intro d hd
      rw [bne_iff_ne]
      rintro rfl
      exact hl hd
    rw [List.takeWhile_append_of_pos hall, hr, List.append_nil]
  have hab : a = b := by rw [← hfront ha hs, h, hfront hb ht]
  subst hab
  exact ⟨rfl, List.append_cancel_left h⟩

namespace Instr

/-- The operands after the first as they are written. -/
def laterText (l : List Operand) : List Char := l.flatMap fun o => ',' :: ' ' :: o.text.toList

theorem toList_operandText_cons (o : Operand) (l : List Operand) :
    (operandText (o :: l)).toList = ' ' :: (o.text.toList ++ laterText l) := by
  simp [operandText, laterText, List.flatMap_map]

theorem laterText_cons (o : Operand) (l : List Operand) :
    laterText (o :: l) = ',' :: (operandText (o :: l)).toList := by
  rw [toList_operandText_cons]
  rfl

theorem takeWhile_laterText (l : List Operand) : (laterText l).takeWhile (· != ',') = [] := by
  cases l <;> rfl

theorem takeWhile_operandText (l : List Operand) :
    (operandText l).toList.takeWhile (· != ' ') = [] := by
  cases l with
  | nil => rfl
  | cons o l =>
    rw [toList_operandText_cons]
    rfl

/-- The comma behind an operand is the first one, so operands are found one by one. -/
theorem laterText_inj {l l' : List Operand} (h : laterText l = laterText l') : l = l' := by
  induction l generalizing l' with
  | nil =>
    cases l' with
    | nil => rfl
    | cons p l' => cases h
  | cons o l ih =>
    cases l' with
    | nil => cases h
    | cons p l' =>
      rw [laterText_cons, laterText_cons, toList_operandText_cons, toList_operandText_cons] at h
      obtain ⟨hop, hlater⟩ := eq_and_eq_of_append_eq o.comma_not_mem_text p.comma_not_mem_text
        (takeWhile_laterText l) (takeWhile_laterText l') (List.cons.inj (List.cons.inj h).2).2
      rw [Operand.text_inj hop, ih hlater]

theorem operandText_inj {l l' : List Operand}
    (h : (operandText l).toList = (operandText l').toList) : l = l' := by
  cases l with
  | nil =>
    cases l' with
    | nil => rfl
    | cons p l' =>
      rw [toList_operandText_cons] at h
      cases h
  | cons o l =>
    cases l' with
    | nil =>
      rw [toList_operandText_cons] at h
      cases h
    | cons p l' =>
      refine laterText_inj ?_
      rw [laterText_cons, laterText_cons, h]

/-- The instructions that have these operands. -/
def havingOperands : List Operand → List Instr
  | [] => [.clear, .ret]
  | [.addr a] => [.addr .sys a, .addr .jump a, .addr .call a]
  | [.index, .addr a] => [.addr .loadIndex a]
  | [.reg _, .addr a] => [.addr .jumpOffset a]
  | [.reg x, .byte k] =>
    [.byte .skipEq x k, .byte .skipNe x k, .byte .load x k, .byte .add x k, .byte .random x k]
  | [.reg x, .reg y] =>
    [.pair .skipEq x y, .pair .skipNe x y, .pair .copy x y, .pair .or x y, .pair .and x y,
      .pair .xor x y, .pair .add x y, .pair .sub x y, .pair .shiftRight x y, .pair .subFrom x y,
      .pair .shiftLeft x y]
  | [.reg x, .reg y, .nibble n] => [.draw x y n]
  | [.reg x] => [.single .skipDown x, .single .skipUp x]
  | [.reg x, .delay] => [.single .readDelay x]
  | [.reg x, .key] => [.single .awaitKey x]
  | [.delay, .reg x] => [.single .setDelay x]
  | [.sound, .reg x] => [.single .setSound x]
  | [.index, .reg x] => [.single .addIndex x]
  | [.glyph, .reg x] => [.single .loadGlyph x]
  | [.digits, .reg x] => [.single .storeDigits x]
  | [.atIndex, .reg x] => [.single .storeRegs x]
  | [.reg x, .atIndex] => [.single .loadRegs x]
  | _ => []

/-- Among the instructions with the same operands the name decides. -/
theorem find?_havingOperands (i : Instr) :
    (havingOperands i.operands).find? (fun j => j.name = i.name) = some i := by
  cases i with
  | clear | ret => rfl
  | addr op a => cases op <;> rfl
  | byte op x k => cases op <;> rfl
  | pair op x y => cases op <;> rfl
  | draw x y n => rfl
  | single op x => cases op <;> rfl

theorem eq_of_name_of_operands {i j : Instr} (hn : i.name = j.name)
    (ho : i.operands = j.operands) : i = j := by
  have hfind := find?_havingOperands i
  rw [hn, ho, find?_havingOperands j] at hfind
  exact (Option.some.inj hfind).symm

theorem blank_not_mem_name (i : Instr) : ' ' ∉ i.name.toList := by
  unfold name
  split <;> decide

/-- No two instructions have the same text. -/
theorem mnemonic_inj {i j : Instr} (h : i.mnemonic = j.mnemonic) : i = j := by
  have hchars := congrArg String.toList h
  rw [mnemonic, mnemonic, String.toList_append, String.toList_append] at hchars
  obtain ⟨hname, hoperands⟩ := eq_and_eq_of_append_eq i.blank_not_mem_name j.blank_not_mem_name
    (takeWhile_operandText _) (takeWhile_operandText _) hchars
  exact eq_of_name_of_operands (String.toList_inj.mp hname) (operandText_inj hoperands)

/-! ### Mnemonics on one line -/

theorem oneLine_operandText (l : List Operand) : OneLine (operandText l) := by
  cases l with
  | nil => decide
  | cons o rest =>
    refine .append (.append (by decide) o.oneLine_text) (.join ?_)
    intro s hs
    obtain ⟨p, -, rfl⟩ := List.mem_map.mp hs
    exact .append (by decide) p.oneLine_text

theorem oneLine_name (i : Instr) : OneLine i.name := by
  unfold name
  split <;> decide

theorem oneLine_mnemonic (i : Instr) : OneLine i.mnemonic :=
  .append i.oneLine_name (oneLine_operandText _)

end Instr

end ChipEight
