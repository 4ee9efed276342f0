import ChipEight.Vm.Control

/-!
# ChipEight.Vm.Listing — the program in memory as text

One line for each word from the load address on: address, word, and the instruction if it is one.
The last byte of memory is never listed.
-/

namespace ChipEight.Vm

/-- The addresses of the words that begin before `last`. -/
def listedAddresses (last : Nat) : List Nat :=
  (List.range ((last - Machine.programStart + 1) / 2)).map fun k => Machine.programStart + 2 * k

/-- The line of the word `w` at `address`. -/
def listingLine (address : Nat) (w : UInt16) : String :=
  let head := Hex.padded 4 address ++ ": " ++ Hex.padded 4 w.toNat
  match Instr.decode? w with
  | some i => head ++ "  " ++ i.mnemonic ++ "\n"
  | none => head ++ "\n"

/-- The lines of the words at the given addresses. -/
def listingLines (m : Memory) : List Nat → Except Breach (List String)
  | [] => .ok []
  | a :: rest => do
    let w ← m.readWord a
    let lines ← listingLines m rest
    return listingLine a w :: lines

/-- The words of the first `count` bytes of the program, one a line. -/
def listing (count : Nat) (vm : Vm) : Except Breach String := do
  let past ← Checked.add Machine.programStart count
  let lines ← listingLines vm.machine.memory (listedAddresses (min past (Memory.size - 1)))
  return String.join lines

end ChipEight.Vm
