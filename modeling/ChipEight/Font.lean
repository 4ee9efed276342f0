import ChipEight.Memory

/-!
# ChipEight.Font — the glyphs of the sixteen digits

Each glyph has five rows, the glyphs follow one another, and they are kept at the start of memory.
-/

namespace ChipEight.Font

/-- Where the glyphs are kept. -/
abbrev start : Nat := 0

/-- Rows of a glyph. -/
abbrev height : Nat := 5

/-- The rows of all glyphs. -/
def rows : List UInt8 :=
  [0xF0, 0x90, 0x90, 0x90, 0xF0,
   0x20, 0x60, 0x20, 0x20, 0x70,
   0xF0, 0x10, 0xF0, 0x80, 0xF0,
   0xF0, 0x10, 0xF0, 0x10, 0xF0,
   0x90, 0x90, 0xF0, 0x10, 0x10,
   0xF0, 0x80, 0xF0, 0x10, 0xF0,
   0xF0, 0x80, 0xF0, 0x90, 0xF0,
   0xF0, 0x10, 0x20, 0x40, 0x40,
   0xF0, 0x90, 0xF0, 0x90, 0xF0,
   0xF0, 0x90, 0xF0, 0x10, 0xF0,
   0xF0, 0x90, 0xF0, 0x90, 0x90,
   0xE0, 0x90, 0xE0, 0x90, 0xE0,
   0xF0, 0x80, 0x80, 0x80, 0xF0,
   0xE0, 0x90, 0x90, 0x90, 0xE0,
   0xF0, 0x80, 0xF0, 0x80, 0xF0,
   0xF0, 0x80, 0xF0, 0x80, 0x80]

/-- The rows of one glyph. -/
def glyph (d : Fin 16) : List UInt8 := (rows.drop (height * d)).take height

@[simp] theorem length_rows : rows.length = 80 := rfl

theorem length_glyph (d : Fin 16) : (glyph d).length = height := by
  revert d
  decide

/-- Memory with the glyphs and zeros. -/
def memory : Memory := Memory.blank.store start rows

end ChipEight.Font
