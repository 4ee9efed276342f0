import ChipEight.Text.Hex

/-!
# ChipEight.Breach — broken contracts of the components

Memory, registers, call stack and screen check what they are asked to do, and so does the
arithmetic on addresses and counts, which have 64 bits.  A request outside their bounds is no fault
of the running program but of the caller, and is answered with a `Breach` that leaves the component
as it was.
-/

namespace ChipEight

/-- An operation on numbers of 64 bits. -/
inductive Arith where
  | add
  | subtract
  | multiply
  deriving DecidableEq, Repr

/-- The name of an operation. -/
def Arith.name : Arith → String
  | .add => "add"
  | .subtract => "subtract"
  | .multiply => "multiply"

/-- A request that breaks a component's contract. -/
inductive Breach where
  | byteRead (address : Nat)
  | byteWrite (address : Nat)
  /-- A word was read that does not lie within memory. -/
  | wordRead (address : Nat)
  /-- A block was written that does not lie within memory. -/
  | blockWrite (address length : Nat)
  /-- A block was read that does not lie within memory. -/
  | blockRead (address length : Nat)
  | stackFull
  | stackEmpty
  | pixel (x y : Nat)
  /-- More registers were asked for than there are. -/
  | registerRange (count : Nat)
  /-- A number was to be kept as a 16-bit address and does not fit. -/
  | addressWidth (n : Nat)
  /-- The result of an operation is no number of 64 bits. -/
  | overflow (op : Arith)
  deriving DecidableEq, Repr

/-- The text of a breach. -/
def Breach.message : Breach → String
  | .byteRead a => "memory read out of bounds: " ++ Hex.padded 4 a
  | .byteWrite a => "memory write out of bounds: " ++ Hex.padded 4 a
  | .wordRead a => "memory word read out of bounds: " ++ Hex.padded 4 a
  | .blockWrite a n => "memory block write out of bounds: " ++ Hex.padded 4 a ++ "+" ++ toString n
  | .blockRead a n => "memory slice out of bounds: " ++ Hex.padded 4 a ++ "+" ++ toString n
  | .stackFull => "call stack overflow"
  | .stackEmpty => "call stack underflow"
  | .pixel x y => "pixel out of bounds: (" ++ toString x ++ ", " ++ toString y ++ ")"
  | .registerRange n =>
    "range end index " ++ toString n ++ " out of range for slice of length 16"
  | .addressWidth n => "address out of range: " ++ Hex.padded 4 n
  | .overflow op => "attempt to " ++ op.name ++ " with overflow"

end ChipEight
