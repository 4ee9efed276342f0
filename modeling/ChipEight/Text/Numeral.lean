/-!
# ChipEight.Text.Numeral — reading unsigned numbers

A numeral is an optional `+` and at least one digit of its radix (letters of either case above
nine), and it is refused when its value passes a limit.  Leading zeros do not count.
-/

namespace ChipEight.Numeral

/-- The largest number of 64 bits. -/
def limit64 : Nat := 18446744073709551615

/-- The value of a digit in the given radix (at most sixteen). -/
def digit? (radix : Nat) (c : Char) : Option Nat :=
  let d :=
    if '0' ≤ c ∧ c ≤ '9' then c.toNat - 48
    else if 'a' ≤ c ∧ c ≤ 'f' then c.toNat - 87
    else if 'A' ≤ c ∧ c ≤ 'F' then c.toNat - 55
    else radix
  if d < radix then some d else none

/-- The value of a list of digits, read behind digits of value `acc`. -/
def digitsFrom? (radix : Nat) (acc : Nat) : List Char → Option Nat
  | [] => some acc
  | c :: cs =>
    match digit? radix c with
    | some d => digitsFrom? radix (radix * acc + d) cs
    | none => none

/-- The value of a nonempty list of digits. -/
def digits? (radix : Nat) (cs : List Char) : Option Nat :=
  if cs.isEmpty then none else digitsFrom? radix 0 cs

/-- A list of characters without its leading `+`. -/
def dropPlus : List Char → List Char
  | '+' :: cs => cs
  | cs => cs

/-- The value of a numeral, when it is at most `limit`. -/
def read? (radix limit : Nat) (text : String) : Option Nat :=
  (digits? radix (dropPlus text.toList)).filter (· ≤ limit)

/-! ### Digits one by one -/

@[simp] theorem digitsFrom?_nil (radix acc : Nat) : digitsFrom? radix acc [] = some acc := rfl

theorem digitsFrom?_cons {radix acc d : Nat} {c : Char} (h : digit? radix c = some d)
    (cs : List Char) :
    digitsFrom? radix acc (c :: cs) = digitsFrom? radix (radix * acc + d) cs := by
  simp [digitsFrom?, h]

end ChipEight.Numeral
