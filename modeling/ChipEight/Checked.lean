import ChipEight.Breach

/-!
# ChipEight.Checked — arithmetic on addresses and counts

Addresses and counts are numbers of 64 bits.  An operation whose result is no such number is a
breach, and so is keeping a number of more than 16 bits as an address operand.
-/

namespace ChipEight.Checked

/-- The sum. -/
def add (a b : Nat) : Except Breach Nat :=
  if a + b < UInt64.size then .ok (a + b) else .error (.overflow .add)

/-- The difference, when it is not negative. -/
def sub (a b : Nat) : Except Breach Nat :=
  if b ≤ a then .ok (a - b) else .error (.overflow .subtract)

/-- The product. -/
def mul (a b : Nat) : Except Breach Nat :=
  if a * b < UInt64.size then .ok (a * b) else .error (.overflow .multiply)

/-- A number kept as a 16-bit address. -/
def address16 (n : Nat) : Except Breach UInt16 :=
  if n < 65536 then .ok (UInt16.ofNat n) else .error (.addressWidth n)

/-! ### Results that fit -/

theorem add_of_lt {a b : Nat} (h : a + b < UInt64.size) : add a b = .ok (a + b) := if_pos h

theorem eq_add_of_add_eq_ok {a b n : Nat} (h : add a b = .ok n) : n = a + b := by
  unfold add at h
  split at h <;> cases h
  rfl

theorem sub_of_le {a b : Nat} (h : b ≤ a) : sub a b = .ok (a - b) := if_pos h

theorem mul_of_lt {a b : Nat} (h : a * b < UInt64.size) : mul a b = .ok (a * b) := if_pos h

theorem address16_of_lt {n : Nat} (h : n < 65536) : address16 n = .ok (UInt16.ofNat n) := if_pos h

theorem exists_toNat_eq {n : Nat} (h : n < 65536) : ∃ a : UInt16, a.toNat = n :=
  ⟨UInt16.ofNat n, by rw [UInt16.toNat_ofNat']; omega⟩

@[simp] theorem address16_toNat (a : UInt16) : address16 a.toNat = .ok a := by
  rw [address16_of_lt a.toNat_lt, UInt16.ofNat_toNat]

end ChipEight.Checked
