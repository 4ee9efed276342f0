/-!
# ChipEight.Text.Hex — numbers in hexadecimal

`digits` writes a number in base sixteen without leading zeros, `padded` fills it up to a width.
Main statements: the digits have the number as their value (`value_digits`), padding keeps the
value (`value_padded`), so padded texts of two numbers differ when the numbers do (`padded_inj`).
-/

namespace ChipEight.Hex

/-- The capital digit of `d < 16`. -/
def digit (d : Nat) : Char :=
  if d < 10 then Char.ofNat (48 + d) else Char.ofNat (55 + d)

/-- The number that a capital digit stands for. -/
def digitValue (c : Char) : Nat :=
  if c.toNat < 65 then c.toNat - 48 else c.toNat - 55

/-- The digits of `n`, most significant first, at least one. -/
def digits (n : Nat) : List Char :=
  if n < 16 then [digit n] else digits (n / 16) ++ [digit (n % 16)]
termination_by n

/-- The number that a list of digits stands for. -/
def value (ds : List Char) : Nat :=
  ds.foldl (fun acc c => 16 * acc + digitValue c) 0

/-- The digits of `n` behind as many zeros as it takes to reach `width` characters. -/
def paddedDigits (width n : Nat) : List Char :=
  List.replicate (width - (digits n).length) '0' ++ digits n

/-- `n` in capital hexadecimal digits, at least `width` of them. -/
def padded (width n : Nat) : String :=
  String.ofList (paddedDigits width n)

/-! ### Reading the digits back -/

theorem digitValue_digit {d : Nat} (h : d < 16) : digitValue (digit d) = d := by
  have key : ∀ e : Fin 16, digitValue (digit e) = e := by decide
  exact key ⟨d, h⟩

@[simp] theorem value_append_singleton (ds : List Char) (c : Char) :
    value (ds ++ [c]) = 16 * value ds + digitValue c := by
  simp [value]

theorem value_digits (n : Nat) : value (digits n) = n := by
  fun_induction digits n with
  | case1 n h => simp [value, digitValue_digit h]
  | case2 n h ih =>
    rw [value_append_singleton, ih, digitValue_digit (Nat.mod_lt _ (by omega))]
    omega

theorem value_replicate_zero_append (k : Nat) (ds : List Char) :
    value (List.replicate k '0' ++ ds) = value ds := by
  induction k with
  | zero => rfl
  | succ k ih =>
    rw [List.replicate_succ, List.cons_append]
    exact ih

theorem value_paddedDigits (width n : Nat) : value (paddedDigits width n) = n := by
  rw [paddedDigits, value_replicate_zero_append, value_digits]

@[simp] theorem toList_padded (width n : Nat) : (padded width n).toList = paddedDigits width n := by
  simp [padded]

theorem value_padded (width n : Nat) : value (padded width n).toList = n := by
  rw [toList_padded, value_paddedDigits]

theorem padded_inj {width n m : Nat} (h : padded width n = padded width m) : n = m := by
  have h' := congrArg (fun s => value s.toList) h
  simpa only [value_padded] using h'

end ChipEight.Hex
