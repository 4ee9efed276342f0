/-!
# ChipEight.Instr.Basic — instructions

Instructions by the operands they take: an address, a register and a byte, two registers, one
register, or none; drawing takes two registers and a small number.
-/

namespace ChipEight

/-- A general register, `V0` to `VF`. -/
abbrev Reg := Fin 16

/-- A 12-bit address operand. -/
abbrev Addr := Fin 4096

/-- A 4-bit number operand. -/
abbrev Nibble := Fin 16

namespace Reg

/-- Registers are named by literals. -/
-- the zero is spelled out as the one that literals of `Fin` ask for
instance instNeZero : @NeZero Nat Zero.ofOfNat0 16 := ⟨by decide⟩

/-- The register that takes carries and collisions. -/
abbrev flag : Reg := 15

/-- The register with the given number, if there is one. -/
def ofNat? (n : Nat) : Option Reg := if h : n < 16 then some ⟨n, h⟩ else none

end Reg

namespace Addr

/-- So are address operands. -/
instance instNeZero : @NeZero Nat Zero.ofOfNat0 4096 := ⟨by decide⟩

/-- The address operand of the given value, if it fits. -/
def ofNat? (n : Nat) : Option Addr := if h : n < 4096 then some ⟨n, h⟩ else none

end Addr

namespace Nibble

/-- The 4-bit operand of the given value, if it fits. -/
def ofNat? (n : Nat) : Option Nibble := if h : n < 16 then some ⟨n, h⟩ else none

end Nibble

/-- What is done with an address. -/
inductive AddrOp where
  /-- Call a machine routine, which does nothing here. -/
  | sys
  | jump
  | call
  | loadIndex
  | jumpOffset
  deriving DecidableEq, Repr

/-- What is done with a register and a byte. -/
inductive ByteOp where
  | skipEq
  | skipNe
  | load
  /-- Add to the register, wrapping, without a carry. -/
  | add
  /-- Set the register to a random byte masked with the byte. -/
  | random
  deriving DecidableEq, Repr

/-- What is done with two registers. -/
inductive PairOp where
  | skipEq
  | skipNe
  | copy
  | or
  | and
  | xor
  | add
  /-- First less second, with the flag set when nothing is borrowed. -/
  | sub
  /-- The first one bit to the right; the second is not read. -/
  | shiftRight
  /-- Second less first, with the flag set when nothing is borrowed. -/
  | subFrom
  /-- The first one bit to the left; the second is not read. -/
  | shiftLeft
  deriving DecidableEq, Repr

/-- What is done with one register. -/
inductive SingleOp where
  /-- Skip when the key named by the register is held. -/
  | skipDown
  /-- Skip when the key named by the register is not held. -/
  | skipUp
  | readDelay
  | awaitKey
  | setDelay
  | setSound
  /-- Add to `I`, wrapping at 16 bits. -/
  | addIndex
  /-- Set `I` to the glyph of a digit. -/
  | loadGlyph
  /-- Store three decimal digits at `I`. -/
  | storeDigits
  /-- Store `V0` up to the register at `I`. -/
  | storeRegs
  /-- Load `V0` up to the register from `I`. -/
  | loadRegs
  deriving DecidableEq, Repr

/-- An instruction. -/
inductive Instr where
  | clear
  | ret
  | addr (op : AddrOp) (a : Addr)
  | byte (op : ByteOp) (x : Reg) (k : UInt8)
  | pair (op : PairOp) (x y : Reg)
  /-- Draw the `n` rows at `I` at the column and row held by two registers. -/
  | draw (x y : Reg) (n : Nibble)
  | single (op : SingleOp) (x : Reg)
  deriving DecidableEq, Repr

end ChipEight
