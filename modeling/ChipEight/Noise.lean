/-!
# ChipEight.Noise — a sequence of random looking bytes

A linear congruential sequence over 64 bits, of which the high byte is taken.  It stands in where a
host has no better source, and it makes a run repeatable.
-/

namespace ChipEight.Noise

/-- The state after one more step. -/
def advance (s : UInt64) : UInt64 := s * 6364136223846793005 + 1442695040888963407

/-- The byte of a state. -/
def byte (s : UInt64) : UInt8 := (s >>> 56).toUInt8

/-- The first `count` bytes from the state `s`. -/
def bytes : Nat → UInt64 → List UInt8
  | 0, _ => []
  | count + 1, s => byte (advance s) :: bytes count (advance s)

end ChipEight.Noise
