import ChipEight.Instr.Basic
import ChipEight.Text.Hex

/-!
# ChipEight.Instr.Mnemonic — instructions as text

The text of an instruction is its name and its operands.  An operand is a register, a number in the
width of its field, or one of the fixed names of timers, keypad, glyphs and memory.
-/

namespace ChipEight

/-- The text of a register, such as `vA`. -/
def Reg.text (r : Reg) : String := String.ofList ['v', Hex.digit r.val]

/-- The text of an address operand, such as `0x2A0`. -/
def Addr.text (a : Addr) : String := "0x" ++ Hex.padded 3 a.val

/-- An operand as it is written. -/
inductive Operand where
  | reg (r : Reg)
  | byte (k : UInt8)
  | addr (a : Addr)
  | nibble (n : Nibble)
  /-- The register `I`. -/
  | index
  /-- The memory that `I` points to. -/
  | atIndex
  | delay
  | sound
  | key
  | glyph
  | digits
  deriving DecidableEq, Repr

/-- The text of an operand. -/
def Operand.text : Operand → String
  | .reg r => r.text
  | .byte k => "0x" ++ Hex.padded 2 k.toNat
  | .addr a => a.text
  | .nibble n => toString n.val
  | .index => "I"
  | .atIndex => "[I]"
  | .delay => "DT"
  | .sound => "ST"
  | .key => "K"
  | .glyph => "F"
  | .digits => "B"

namespace Instr

/-- The name of an instruction. -/
def name : Instr → String
  | .clear => "CLS"
  | .ret => "RET"
  | .addr .sys _ => "SYS"
  | .addr .jump _ | .addr .jumpOffset _ => "JP"
  | .addr .call _ => "CALL"
  | .addr .loadIndex _ => "LD"
  | .byte .skipEq _ _ | .pair .skipEq _ _ => "SE"
  | .byte .skipNe _ _ | .pair .skipNe _ _ => "SNE"
  | .byte .load _ _ | .pair .copy _ _ => "LD"
  | .byte .add _ _ | .pair .add _ _ => "ADD"
  | .byte .random _ _ => "RND"
  | .pair .or _ _ => "OR"
  | .pair .and _ _ => "AND"
  | .pair .xor _ _ => "XOR"
  | .pair .sub _ _ => "SUB"
  | .pair .shiftRight _ _ => "SHR"
  | .pair .subFrom _ _ => "SUBN"
  | .pair .shiftLeft _ _ => "SHL"
  | .draw _ _ _ => "DRW"
  | .single .skipDown _ => "SKP"
  | .single .skipUp _ => "SKNP"
  | .single .addIndex _ => "ADD"
  | .single _ _ => "LD"

/-- The operands of an instruction, in the order they are written. -/
def operands : Instr → List Operand
  | .clear | .ret => []
  | .addr .loadIndex a => [.index, .addr a]
  | .addr .jumpOffset a => [.reg 0, .addr a]
  | .addr _ a => [.addr a]
  | .byte _ x k => [.reg x, .byte k]
  | .pair _ x y => [.reg x, .reg y]
  | .draw x y n => [.reg x, .reg y, .nibble n]
  | .single .skipDown x | .single .skipUp x => [.reg x]
  | .single .readDelay x => [.reg x, .delay]
  | .single .awaitKey x => [.reg x, .key]
  | .single .setDelay x => [.delay, .reg x]
  | .single .setSound x => [.sound, .reg x]
  | .single .addIndex x => [.index, .reg x]
  | .single .loadGlyph x => [.glyph, .reg x]
  | .single .storeDigits x => [.digits, .reg x]
  | .single .storeRegs x => [.atIndex, .reg x]
  | .single .loadRegs x => [.reg x, .atIndex]

/-- Operands behind a name: a blank before the first, a comma and a blank before each other one. -/
def operandText : List Operand → String
  | [] => ""
  | o :: rest => " " ++ o.text ++ String.join (rest.map fun p => ", " ++ p.text)

/-- The text of an instruction. -/
def mnemonic (i : Instr) : String := i.name ++ operandText i.operands

end Instr

end ChipEight
