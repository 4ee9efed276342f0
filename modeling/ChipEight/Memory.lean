import ChipEight.Breach
import ChipEight.Word

/-!
# ChipEight.Memory — 4096 bytes, every access checked

`m[a]` is the view: the byte at `a`.  The checked operations answer a `Breach` when an address lies
outside and change nothing then.  Main statements: what a block write leaves at each address
(`getElem_store`) and that each access within memory is granted (`readBlock_of_le`, …).
-/

namespace ChipEight

/-- The address space. -/
structure Memory where
  cells : Vector UInt8 4096
  deriving DecidableEq

namespace Memory

/-- Number of bytes. -/
abbrev size : Nat := 4096

/-- The `length` bytes from `address` up lie within memory. -/
def Contains (address length : Nat) : Prop := address + length ≤ size

instance (address length : Nat) : Decidable (Contains address length) :=
  inferInstanceAs (Decidable (address + length ≤ size))

instance : GetElem Memory Nat UInt8 fun _ a => a < size where
  getElem m a h := m.cells[a]

/-- Memory of zeros. -/
def blank : Memory := ⟨Vector.replicate size 0⟩

/-- One byte replaced; an address outside changes nothing. -/
def put (m : Memory) (address : Nat) (b : UInt8) : Memory := ⟨m.cells.setIfInBounds address b⟩

/-- Bytes put one after the other, from `address` up. -/
def store (m : Memory) (address : Nat) : List UInt8 → Memory
  | [] => m
  | b :: bs => store (m.put address b) (address + 1) bs

/-- The byte at `address`. -/
def readByte (m : Memory) (address : Nat) : Except Breach UInt8 :=
  if h : address < size then .ok m[address] else .error (.byteRead address)

/-- The byte at `address` becomes `b`. -/
def writeByte (m : Memory) (address : Nat) (b : UInt8) : Except Breach Memory :=
  if address < size then .ok (m.put address b) else .error (.byteWrite address)

/-- The word at `address`, high byte first. -/
def readWord (m : Memory) (address : Nat) : Except Breach UInt16 :=
  if h : address + 2 ≤ size then .ok (Word.join m[address] m[address + 1])
  else .error (.wordRead address)

/-- The `length` bytes from `address` up, all within memory. -/
def block (m : Memory) (address length : Nat) (h : address + length ≤ size) : List UInt8 :=
  List.ofFn fun i : Fin length => m[address + i]

/-- The `length` bytes from `address` up. -/
def readBlock (m : Memory) (address length : Nat) : Except Breach (List UInt8) :=
  if h : address + length ≤ size then .ok (m.block address length h)
  else .error (.blockRead address length)

/-- The bytes from `address` up become `bytes`. -/
def writeBlock (m : Memory) (address : Nat) (bytes : List UInt8) : Except Breach Memory :=
  if Contains address bytes.length then .ok (m.store address bytes)
  else .error (.blockWrite address bytes.length)

/-! ### The view of each operation -/

@[ext] theorem ext {m m' : Memory} (h : ∀ (a : Nat) (ha : a < size), m[a] = m'[a]) : m = m' := by
  obtain ⟨c⟩ := m
  obtain ⟨c'⟩ := m'
  congr 1
  exact Vector.ext fun i hi => h i hi

@[simp] theorem getElem_blank {a : Nat} (ha : a < size) : blank[a] = 0 :=
  Vector.getElem_replicate ha

theorem getElem_put {m : Memory} {address a : Nat} {b : UInt8} (ha : a < size) :
    (m.put address b)[a] = if address = a then b else m[a] :=
  Vector.getElem_setIfInBounds ha

theorem getElem_store (m : Memory) (address : Nat) (bytes : List UInt8) {a : Nat} (ha : a < size) :
    (m.store address bytes)[a] =
      if h : address ≤ a ∧ a - address < bytes.length then bytes[a - address] else m[a] := by
  induction bytes generalizing m address with
  | nil => simp [store]
  | cons b bs ih =>
    rw [store, ih, getElem_put]
    by_cases h1 : address = a
    · subst h1
      have e : ¬ (address + 1 ≤ address) := by omega
      simp [e]
    · by_cases h2 : address + 1 ≤ a
      · have e : a - address = (a - (address + 1)) + 1 := by omega
        have e2 : address ≤ a := by omega
        simp [h1, h2, e, e2]
      · have e2 : ¬ address ≤ a := by omega
        simp [h1, h2, e2]

@[simp] theorem store_nil (m : Memory) (address : Nat) : m.store address [] = m := rfl

@[simp] theorem length_block (m : Memory) {address length : Nat} (h : address + length ≤ size) :
    (m.block address length h).length = length := List.length_ofFn

/-! ### When an access is granted -/

theorem readByte_of_lt (m : Memory) {a : Nat} (h : a < size) : m.readByte a = .ok m[a] := by
  simp [readByte, h]

theorem writeByte_of_lt (m : Memory) {a : Nat} (h : a < size) (b : UInt8) :
    m.writeByte a b = .ok (m.put a b) := by
  simp [writeByte, h]

theorem readWord_of_le (m : Memory) {a : Nat} (h : a + 2 ≤ size) :
    m.readWord a = .ok (Word.join m[a] m[a + 1]) := by
  simp [readWord, h]

theorem readBlock_of_le (m : Memory) {a len : Nat} (h : a + len ≤ size) :
    m.readBlock a len = .ok (m.block a len h) := dif_pos h

theorem writeBlock_of_contains (m : Memory) {a : Nat} {bytes : List UInt8}
    (h : Contains a bytes.length) : m.writeBlock a bytes = .ok (m.store a bytes) := by
  simp [writeBlock, h]

/-! ### Reading what was stored -/

section Stored

variable {m : Memory} {address : Nat} {bytes : List UInt8}

theorem readByte_store_inside {k : Nat} {b : UInt8} (hk : bytes[k]? = some b)
    (ha : address + k < size) : (m.store address bytes).readByte (address + k) = .ok b := by
  obtain ⟨hlt, rfl⟩ := List.getElem?_eq_some_iff.mp hk
  rw [readByte_of_lt _ ha, getElem_store, dif_pos ⟨by omega, by omega⟩]
  simp only [Nat.add_sub_cancel_left]

theorem readByte_store_outside {a : Nat} (ha : ∀ k < bytes.length, a ≠ address + k) :
    (m.store address bytes).readByte a = m.readByte a := by
  by_cases hlt : a < size
  · have hout : ¬ (address ≤ a ∧ a - address < bytes.length) := by
      rintro ⟨hle, hk⟩
      exact ha _ hk (by omega)
    rw [readByte_of_lt _ hlt, readByte_of_lt _ hlt, getElem_store, dif_neg hout]
  · rw [readByte, readByte, dif_neg hlt, dif_neg hlt]

/-- A block at the place of a store is what was stored, as far as it reaches. -/
theorem block_store {length : Nat} (h : address + length ≤ size) (hl : length ≤ bytes.length) :
    (m.store address bytes).block address length h = bytes.take length := by
  refine List.ext_getElem ?_ fun k hk hk' => ?_
  · rw [length_block, List.length_take, Nat.min_eq_left hl]
  · rw [length_block] at hk
    simp only [block, List.getElem_ofFn, List.getElem_take, getElem_store, Nat.add_sub_cancel_left]
    exact dif_pos ⟨Nat.le_add_right address k, Nat.lt_of_lt_of_le hk hl⟩

end Stored

end Memory

end ChipEight
