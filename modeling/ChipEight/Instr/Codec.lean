import ChipEight.Instr.Basic
import ChipEight.Word

/-!
# ChipEight.Instr.Codec — instructions as words

`encode` writes an instruction as a word and `decode?` reads one, answering nothing for a word
that is no instruction.  Main statements: whatever decodes is encoded back (`encode_of_decode?`),
and an encoded instruction decodes to itself unless it is a machine routine whose word means
something else (`decode?_encode`).
-/

namespace ChipEight

/-- The group of an address operation. -/
def AddrOp.group : AddrOp → Fin 16
  | .sys => 0x0
  | .jump => 0x1
  | .call => 0x2
  | .loadIndex => 0xA
  | .jumpOffset => 0xB

/-- The group of a byte operation. -/
def ByteOp.group : ByteOp → Fin 16
  | .skipEq => 0x3
  | .skipNe => 0x4
  | .load => 0x6
  | .add => 0x7
  | .random => 0xC

/-- The group of a two register operation, and its lowest nibble. -/
def PairOp.code : PairOp → Fin 16 × Fin 16
  | .skipEq => (0x5, 0x0)
  | .skipNe => (0x9, 0x0)
  | .copy => (0x8, 0x0)
  | .or => (0x8, 0x1)
  | .and => (0x8, 0x2)
  | .xor => (0x8, 0x3)
  | .add => (0x8, 0x4)
  | .sub => (0x8, 0x5)
  | .shiftRight => (0x8, 0x6)
  | .subFrom => (0x8, 0x7)
  | .shiftLeft => (0x8, 0xE)

/-- The group of a one register operation, and its low byte. -/
def SingleOp.code : SingleOp → Fin 16 × UInt8
  | .skipDown => (0xE, 0x9E)
  | .skipUp => (0xE, 0xA1)
  | .readDelay => (0xF, 0x07)
  | .awaitKey => (0xF, 0x0A)
  | .setDelay => (0xF, 0x15)
  | .setSound => (0xF, 0x18)
  | .addIndex => (0xF, 0x1E)
  | .loadGlyph => (0xF, 0x29)
  | .storeDigits => (0xF, 0x33)
  | .storeRegs => (0xF, 0x55)
  | .loadRegs => (0xF, 0x65)

/-- The two register operation of a group and a lowest nibble. -/
def PairOp.ofCode? : Nat → Nat → Option PairOp
  | 0x5, 0x0 => some .skipEq
  | 0x8, 0x0 => some .copy
  | 0x8, 0x1 => some .or
  | 0x8, 0x2 => some .and
  | 0x8, 0x3 => some .xor
  | 0x8, 0x4 => some .add
  | 0x8, 0x5 => some .sub
  | 0x8, 0x6 => some .shiftRight
  | 0x8, 0x7 => some .subFrom
  | 0x8, 0xE => some .shiftLeft
  | 0x9, 0x0 => some .skipNe
  | _, _ => none

/-- The one register operation of a group and a low byte. -/
def SingleOp.ofCode? : Nat → Nat → Option SingleOp
  | 0xE, 0x9E => some .skipDown
  | 0xE, 0xA1 => some .skipUp
  | 0xF, 0x07 => some .readDelay
  | 0xF, 0x0A => some .awaitKey
  | 0xF, 0x15 => some .setDelay
  | 0xF, 0x18 => some .setSound
  | 0xF, 0x1E => some .addIndex
  | 0xF, 0x29 => some .loadGlyph
  | 0xF, 0x33 => some .storeDigits
  | 0xF, 0x55 => some .storeRegs
  | 0xF, 0x65 => some .loadRegs
  | _, _ => none

namespace Instr

/-- The word that clears the screen. -/
def clearWord : UInt16 := 0x00E0

/-- The word that returns from a call. -/
def retWord : UInt16 := 0x00EE

/-- The word of an instruction. -/
def encode : Instr → UInt16
  | .clear => clearWord
  | .ret => retWord
  | .addr op a => Word.ofAddress op.group a
  | .byte op x k => Word.ofByte op.group x k
  | .pair op x y => Word.ofNibbles op.code.1 x y op.code.2
  | .draw x y n => Word.ofNibbles 0xD x y n
  | .single op x => Word.ofByte op.code.1 x op.code.2

/-- The instruction of a word. -/
def decode? (w : UInt16) : Option Instr :=
  match (Word.group w).val with
  | 0x0 =>
    some (if w = clearWord then .clear else if w = retWord then .ret
      else .addr .sys (Word.address w))
  | 0x1 => some (.addr .jump (Word.address w))
  | 0x2 => some (.addr .call (Word.address w))
  | 0x3 => some (.byte .skipEq (Word.x w) (Word.low w))
  | 0x4 => some (.byte .skipNe (Word.x w) (Word.low w))
  | 0x6 => some (.byte .load (Word.x w) (Word.low w))
  | 0x7 => some (.byte .add (Word.x w) (Word.low w))
  | 0xA => some (.addr .loadIndex (Word.address w))
  | 0xB => some (.addr .jumpOffset (Word.address w))
  | 0xC => some (.byte .random (Word.x w) (Word.low w))
  | 0xD => some (.draw (Word.x w) (Word.y w) (Word.n w))
  | g =>
    match PairOp.ofCode? g (Word.n w), SingleOp.ofCode? g (Word.low w).toNat with
    | some op, _ => some (.pair op (Word.x w) (Word.y w))
    | none, some op => some (.single op (Word.x w))
    | none, none => none

/-- A machine routine call whose word means something else. -/
def isAlias (i : Instr) : Bool := i == .addr .sys 0x0E0 || i == .addr .sys 0x0EE

/-- The machine routine call to `a`, unless its word means something else. -/
def sys? (a : Addr) : Option Instr :=
  if a = 0x0E0 ∨ a = 0x0EE then none else some (.addr .sys a)

/-- The two bytes of an instruction. -/
def bytes (i : Instr) : List UInt8 := [Word.high i.encode, Word.low i.encode]

end Instr

/-! ### Round trips -/

theorem PairOp.code_of_ofCode? {g n : Nat} {op : PairOp} (h : PairOp.ofCode? g n = some op) :
    op.code.1.val = g ∧ op.code.2.val = n := by
  unfold PairOp.ofCode? at h
  split at h <;> cases h <;> exact ⟨rfl, rfl⟩

@[simp] theorem PairOp.ofCode?_code (op : PairOp) :
    PairOp.ofCode? op.code.1 op.code.2 = some op := by
  cases op <;> rfl

theorem SingleOp.code_of_ofCode? {g k : Nat} {op : SingleOp} (h : SingleOp.ofCode? g k = some op) :
    op.code.1.val = g ∧ op.code.2.toNat = k := by
  unfold SingleOp.ofCode? at h
  split at h <;> cases h <;> exact ⟨rfl, rfl⟩

@[simp] theorem SingleOp.ofCode?_code (op : SingleOp) :
    SingleOp.ofCode? op.code.1 op.code.2.toNat = some op := by
  cases op <;> rfl

namespace Instr

theorem encode_of_decode? {w : UInt16} {i : Instr} (h : decode? w = some i) : i.encode = w := by
  have ha := Word.ofFields_group_address w
  have hb := Word.ofFields_group_byte w
  have hn := Word.ofFields_group_nibbles w
  unfold decode? at h
  split at h
  case h_1 e =>
    have e' : Word.group w = 0 := Fin.ext e
    rw [e'] at ha
    cases h
    split
    · next h1 => exact h1.symm
    · split
      · next h2 => exact h2.symm
      · exact ha
  case h_12 e _ _ _ _ _ _ _ _ _ _ _ =>
    split at h
    · next op _ h1 =>
      cases h
      obtain ⟨c1, c2⟩ := PairOp.code_of_ofCode? h1
      rw [encode, Fin.ext c1, Fin.ext c2]
      exact hn
    · next op _ h1 =>
      cases h
      obtain ⟨c1, c2⟩ := SingleOp.code_of_ofCode? h1
      rw [encode, Fin.ext c1, UInt8.toNat_inj.mp c2]
      exact hb
    · cases h
  all_goals
    next e =>
    cases h
    rw [Fin.ext (b := ⟨_, by decide⟩) e] at ha hb hn
    first | exact ha | exact hb | exact hn

theorem decode?_encode {i : Instr} (h : i.isAlias = false) : decode? i.encode = some i := by
  cases i with
  | clear => decide
  | ret => decide
  | addr op a =>
    cases op with
    | sys =>
      have h1 : Word.ofAddress 0 a ≠ clearWord := by
        intro e
        have e' : a = 0x0E0 := (Word.address_ofAddress 0 a).symm.trans (congrArg Word.address e)
        subst e'
        cases h
      have h2 : Word.ofAddress 0 a ≠ retWord := by
        intro e
        have e' : a = 0x0EE := (Word.address_ofAddress 0 a).symm.trans (congrArg Word.address e)
        subst e'
        cases h
      simp [encode, decode?, AddrOp.group, h1, h2]
    | jump | call | loadIndex | jumpOffset =>
      simp only [encode, decode?, Word.group_ofAddress, Word.address_ofAddress]
      rfl
  | byte op x k =>
    simp only [encode, decode?, Word.group_ofByte, Word.x_ofByte, Word.low_ofByte]
    cases op <;> rfl
  | pair op x y =>
    simp only [encode, decode?, Word.group_ofNibbles, Word.x_ofNibbles, Word.y_ofNibbles,
      Word.n_ofNibbles]
    cases op <;> rfl
  | draw x y n =>
    simp only [encode, decode?, Word.group_ofNibbles, Word.x_ofNibbles, Word.y_ofNibbles,
      Word.n_ofNibbles]
    rfl
  | single op x =>
    simp only [encode, decode?, Word.group_ofByte, Word.x_ofByte, Word.low_ofByte]
    cases op <;> rfl

end Instr

end ChipEight
