import ChipEight.Instr.Codec

/-!
# ChipEight.Program — programs as bytes

A program is assembled by writing its instructions one after the other, and read back word by word.
-/

namespace ChipEight.Program

/-- The bytes of a program. -/
def assemble (program : List Instr) : List UInt8 := program.flatMap Instr.bytes

/-- The words of a byte string; a byte left over at the end is dropped. -/
def words : List UInt8 → List UInt16
  | high :: low :: rest => Word.join high low :: words rest
  | _ => []

/-- The instructions of a byte string, when every word is one. -/
def disassemble? (bytes : List UInt8) : Option (List Instr) := (words bytes).mapM Instr.decode?

/-! ### Assembled words -/

@[simp] theorem assemble_nil : assemble [] = [] := rfl

@[simp] theorem assemble_cons (i : Instr) (p : List Instr) :
    assemble (i :: p) = Word.high i.encode :: Word.low i.encode :: assemble p := rfl

theorem words_assemble (p : List Instr) : words (assemble p) = p.map Instr.encode := by
  induction p with
  | nil => rfl
  | cons i p ih => simp [words, ih]

end ChipEight.Program
