import ChipEight.Checked
import ChipEight.Fault
import ChipEight.Instr.Codec
import ChipEight.Machine.Basic

/-!
# ChipEight.Machine.Fetch — the instruction at the program counter

`fetch` reads the word at the program counter and `next` decodes it.  Both only look at the
machine.
-/

namespace ChipEight.Machine

/-- The word at the program counter. -/
def fetch (m : Machine) : Except Failure UInt16 :=
  if Memory.Contains m.pc 2 then Failure.ofComponent (m.memory.readWord m.pc)
  else .error (.fault (.outOfBounds m.pc))

/-- The instruction at the program counter. -/
def next (m : Machine) : Except Failure Instr := do
  let w ← m.fetch
  match Instr.decode? w with
  | some i => return i
  | none =>
    let a ← Failure.ofComponent (Checked.address16 m.pc)
    throw (.fault (.unrecognized w a))

end ChipEight.Machine
