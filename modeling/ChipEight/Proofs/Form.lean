import ChipEight.Instr.Codec
import ChipEight.Text.Hex
import Mathlib.Data.List.Forall2

/-!
# ChipEight.Proofs.Form — the written forms of instruction words

Instruction words are usually listed in forms such as `8xy4`: four characters, where a capital
digit stands for itself and a small letter, an operand, for any digit.  `Instr.forms` is that list.
Main statements: a word fits the form of an operation iff it is the word of that operation with
operands of its own (`fits_form_iff`), and a word is an instruction iff it fits one of the forms
(`isSome_decode?_iff`).
-/

namespace ChipEight

namespace Word

/-- The four digits of a word. -/
def nibbles (w : UInt16) : List (Fin 16) := [group w, x w, y w, n w]

/-- A small letter allows any digit, another character only the digit that it is. -/
def Allows (c : Char) (d : Fin 16) : Prop := c.isLower = true ∨ c = Hex.digit d

instance : DecidableRel Allows := fun c d =>
  inferInstanceAs (Decidable (c.isLower = true ∨ c = Hex.digit d))

/-- The digits of the word are as the written form has them. -/
def Fits (w : UInt16) (form : String) : Prop := List.Forall₂ Allows form.toList (nibbles w)

instance (w : UInt16) (form : String) : Decidable (Fits w form) :=
  inferInstanceAs (Decidable (List.Forall₂ Allows form.toList (nibbles w)))

variable {w : UInt16}

@[simp] theorem allows_n (d : Fin 16) : Allows 'n' d := .inl rfl

@[simp] theorem allows_x (d : Fin 16) : Allows 'x' d := .inl rfl

@[simp] theorem allows_y (d : Fin 16) : Allows 'y' d := .inl rfl

@[simp] theorem allows_k (d : Fin 16) : Allows 'k' d := .inl rfl

@[simp] theorem allows_digit {e : Nat} (he : e < 16) (d : Fin 16) :
    Allows (Hex.digit e) d ↔ d.val = e := by
  have key : ∀ a : Fin 16, (Hex.digit a).isLower = false := by decide
  have hl := key ⟨e, he⟩
  constructor
  · rintro (h | h)
    · rw [hl] at h
      cases h
    · have hv := congrArg Hex.digitValue h
      rw [Hex.digitValue_digit he, Hex.digitValue_digit d.isLt] at hv
      exact hv.symm
  · rintro rfl
    exact .inr rfl

theorem fits_ofList {a b c d : Char} :
    Fits w (String.ofList [a, b, c, d]) ↔
      Allows a (group w) ∧ Allows b (x w) ∧ Allows c (y w) ∧ Allows d (n w) := by
  simp [Fits, nibbles]

/-! ### Words with given fields -/

theorem ofAddress_eq_iff {g : Fin 16} {a : Fin 4096} :
    ofAddress g a = w ↔ group w = g ∧ address w = a := by
  constructor
  · rintro rfl
    exact ⟨group_ofAddress g a, address_ofAddress g a⟩
  · rintro ⟨rfl, rfl⟩
    exact ofFields_group_address w

theorem ofByte_eq_iff {g r : Fin 16} {k : UInt8} :
    ofByte g r k = w ↔ group w = g ∧ x w = r ∧ low w = k := by
  constructor
  · rintro rfl
    exact ⟨group_ofByte g r k, x_ofByte g r k, low_ofByte g r k⟩
  · rintro ⟨rfl, rfl, rfl⟩
    exact ofFields_group_byte w

theorem ofNibbles_eq_iff {g r s k : Fin 16} :
    ofNibbles g r s k = w ↔ group w = g ∧ x w = r ∧ y w = s ∧ n w = k := by
  constructor
  · rintro rfl
    exact ⟨group_ofNibbles g r s k, x_ofNibbles g r s k, y_ofNibbles g r s k,
      n_ofNibbles g r s k⟩
  · rintro ⟨rfl, rfl, rfl, rfl⟩
    exact ofFields_group_nibbles w

theorem low_eq_iff {k : UInt8} :
    low w = k ↔ (y w).val = k.toNat / 16 ∧ (n w).val = k.toNat % 16 := by
  have hk := k.toNat_lt
  rw [← UInt8.toNat_inj, toNat_low]
  simp only [y, n]
  omega

end Word

namespace Instr

/-- The written form of an instruction, its operands left open. -/
def form : Instr → String
  | .clear => String.ofList [Hex.digit 0x0, Hex.digit 0x0, Hex.digit 0xE, Hex.digit 0x0]
  | .ret => String.ofList [Hex.digit 0x0, Hex.digit 0x0, Hex.digit 0xE, Hex.digit 0xE]
  | .addr op _ => String.ofList [Hex.digit op.group, 'n', 'n', 'n']
  | .byte op _ _ => String.ofList [Hex.digit op.group, 'x', 'k', 'k']
  | .pair op _ _ => String.ofList [Hex.digit op.code.1, 'x', 'y', Hex.digit op.code.2]
  | .draw _ _ _ => String.ofList [Hex.digit 0xD, 'x', 'y', 'n']
  | .single op _ =>
    String.ofList [Hex.digit op.code.1, 'x', Hex.digit (op.code.2.toNat / 16),
      Hex.digit (op.code.2.toNat % 16)]

/-- The written forms of all instruction words. -/
def forms : List String :=
  ["0nnn", "1nnn", "2nnn", "3xkk", "4xkk", "5xy0", "6xkk", "7xkk",
   "8xy0", "8xy1", "8xy2", "8xy3", "8xy4", "8xy5", "8xy6", "8xy7", "8xyE",
   "9xy0", "Annn", "Bnnn", "Cxkk", "Dxyn", "Ex9E", "ExA1",
   "Fx07", "Fx0A", "Fx15", "Fx18", "Fx1E", "Fx29", "Fx33", "Fx55", "Fx65"]

/-- An instruction of each form. -/
def prototypes : List Instr :=
  [.addr .sys 0, .addr .jump 0, .addr .call 0, .byte .skipEq 0 0, .byte .skipNe 0 0,
   .pair .skipEq 0 0, .byte .load 0 0, .byte .add 0 0,
   .pair .copy 0 0, .pair .or 0 0, .pair .and 0 0, .pair .xor 0 0, .pair .add 0 0, .pair .sub 0 0,
   .pair .shiftRight 0 0, .pair .subFrom 0 0, .pair .shiftLeft 0 0,
   .pair .skipNe 0 0, .addr .loadIndex 0, .addr .jumpOffset 0, .byte .random 0 0, .draw 0 0 0,
   .single .skipDown 0, .single .skipUp 0,
   .single .readDelay 0, .single .awaitKey 0, .single .setDelay 0, .single .setSound 0,
   .single .addIndex 0, .single .loadGlyph 0, .single .storeDigits 0, .single .storeRegs 0,
   .single .loadRegs 0]

theorem map_form_prototypes : prototypes.map form = forms := by decide

/-- The same operation, with the operands that the word has. -/
def withOperands (w : UInt16) : Instr → Instr
  | .clear => .clear
  | .ret => .ret
  | .addr op _ => .addr op (Word.address w)
  | .byte op _ _ => .byte op (Word.x w) (Word.low w)
  | .pair op _ _ => .pair op (Word.x w) (Word.y w)
  | .draw _ _ _ => .draw (Word.x w) (Word.y w) (Word.n w)
  | .single op _ => .single op (Word.x w)

variable {w : UInt16} {i : Instr}

theorem withOperands_encode (i : Instr) : i.withOperands i.encode = i := by
  cases i <;> simp [withOperands, encode]

/-- The words of a form are those of its operation, with any operands. -/
theorem fits_form_iff : Word.Fits w i.form ↔ (i.withOperands w).encode = w := by
  cases i with
  | clear =>
    show _ ↔ Word.ofNibbles 0x0 0x0 0xE 0x0 = w
    rw [form, Word.fits_ofList, Word.ofNibbles_eq_iff]
    simp only [Fin.ext_iff, Word.allows_digit, Nat.reduceLT]
    exact Iff.rfl
  | ret =>
    show _ ↔ Word.ofNibbles 0x0 0x0 0xE 0xE = w
    rw [form, Word.fits_ofList, Word.ofNibbles_eq_iff]
    simp only [Fin.ext_iff, Word.allows_digit, Nat.reduceLT]
    exact Iff.rfl
  | addr op a =>
    show _ ↔ Word.ofAddress op.group (Word.address w) = w
    rw [form, Word.fits_ofList, Word.ofAddress_eq_iff]
    simp [Fin.ext_iff]
  | byte op x k =>
    show _ ↔ Word.ofByte op.group (Word.x w) (Word.low w) = w
    rw [form, Word.fits_ofList, Word.ofByte_eq_iff]
    simp [Fin.ext_iff]
  | pair op x y =>
    show _ ↔ Word.ofNibbles op.code.1 (Word.x w) (Word.y w) op.code.2 = w
    rw [form, Word.fits_ofList, Word.ofNibbles_eq_iff]
    simp [Fin.ext_iff]
  | draw x y n =>
    show _ ↔ Word.ofNibbles 0xD (Word.x w) (Word.y w) (Word.n w) = w
    rw [form, Word.fits_ofList, Word.ofNibbles_eq_iff]
    simp only [Fin.ext_iff, Word.allows_digit, Nat.reduceLT, Word.allows_x, Word.allows_y, Word.allows_n,
      and_true]
    exact Iff.rfl
  | single op x =>
    -- the low byte is written as two digits
    have hk := op.code.2.toNat_lt
    have hy : op.code.2.toNat / 16 < 16 := by omega
    have hn : op.code.2.toNat % 16 < 16 := by omega
    show _ ↔ Word.ofByte op.code.1 (Word.x w) op.code.2 = w
    rw [form, Word.fits_ofList, Word.ofByte_eq_iff, Word.low_eq_iff]
    simp [Fin.ext_iff, hy, hn]

theorem fits_encode (i : Instr) : Word.Fits i.encode i.form := by
  rw [fits_form_iff, withOperands_encode]

theorem decode?_of_fits (h : Word.Fits w i.form) (ha : (i.withOperands w).isAlias = false) :
    decode? w = some (i.withOperands w) := by
  have hd := decode?_encode ha
  rw [fits_form_iff.mp h] at hd
  exact hd

theorem isSome_decode?_encode (i : Instr) : (decode? i.encode).isSome = true := by
  cases h : i.isAlias with
  | false =>
    rw [decode?_encode h]
    rfl
  | true =>
    rw [isAlias, Bool.or_eq_true, beq_iff_eq, beq_iff_eq] at h
    rcases h with rfl | rfl <;> decide

/-- The words that clear the screen and return are listed as machine routines. -/
theorem exists_fits_encode (i : Instr) : ∃ form ∈ forms, Word.Fits i.encode form := by
  cases i with
  | clear => decide
  | ret => decide
  | addr op a =>
    refine ⟨_, ?_, fits_encode (.addr op a)⟩
    rw [form]
    cases op <;> decide
  | byte op x k =>
    refine ⟨_, ?_, fits_encode (.byte op x k)⟩
    rw [form]
    cases op <;> decide
  | pair op x y =>
    refine ⟨_, ?_, fits_encode (.pair op x y)⟩
    rw [form]
    cases op <;> decide
  | draw x y n =>
    refine ⟨_, ?_, fits_encode (.draw x y n)⟩
    rw [form]
    decide
  | single op x =>
    refine ⟨_, ?_, fits_encode (.single op x)⟩
    rw [form]
    cases op <;> decide

/-- A word is an instruction iff it fits one of the written forms. -/
theorem isSome_decode?_iff : (decode? w).isSome = true ↔ ∃ form ∈ forms, Word.Fits w form := by
  constructor
  · intro h
    obtain ⟨i, hi⟩ := Option.isSome_iff_exists.mp h
    rw [← encode_of_decode? hi]
    exact exists_fits_encode i
  · rintro ⟨f, hf, hw⟩
    rw [← map_form_prototypes, List.mem_map] at hf
    obtain ⟨i, -, rfl⟩ := hf
    rw [← fits_form_iff.mp hw]
    exact isSome_decode?_encode _

theorem decode?_eq_none_iff : decode? w = none ↔ ∀ form ∈ forms, ¬ Word.Fits w form := by
  rw [← Option.not_isSome_iff_eq_none, isSome_decode?_iff]
  constructor
  · intro h form hf hw
    exact h ⟨form, hf, hw⟩
  · rintro h ⟨form, hf, hw⟩
    exact h form hf hw

end Instr

end ChipEight
