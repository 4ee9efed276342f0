import ChipEight.Breach

/-!
# ChipEight.Screen — 64 columns by 32 rows of pixels that are on or off

The cells are numbered row by row, and `s.isLit i` is the view.  Drawing a sprite is a fold over
the list of cells that its set bits hit (`hits`), each hit toggling one cell; a cell that was lit
when it was hit makes the draw a collision.  Main statements: a hit toggles its own cell only
(`isLit_toggle`) and a draw toggles a cell as often as it is hit (`isLit_draw`).
-/

namespace ChipEight

/-- The framebuffer. -/
structure Screen where
  cells : Vector Bool 2048
  deriving DecidableEq

namespace Screen

/-- Number of columns. -/
abbrev width : Nat := 64

/-- Number of rows. -/
abbrev height : Nat := 32

/-- Number of pixels in a sprite row. -/
abbrev spriteWidth : Nat := 8

/-- Every pixel off. -/
def blank : Screen := ⟨Vector.replicate 2048 false⟩

/-- The cell of column `x` and row `y`, both wrapped around. -/
def cell (x y : Nat) : Fin 2048 := ⟨x % 64 + 64 * (y % 32), by omega⟩

/-- The cell is on. -/
def isLit (s : Screen) (i : Fin 2048) : Bool := s.cells[i]

/-- One cell switched over. -/
def toggle (s : Screen) (i : Fin 2048) : Screen := ⟨s.cells.set i (!s.cells[i])⟩

/-- The columns of the set bits of a sprite row, most significant bit first. -/
def columns (row : UInt8) : List Nat :=
  (List.range spriteWidth).filter fun c => row.toNat.testBit (7 - c)

/-- The cells hit by a sprite with its first row at column `x`, row `y`, in drawing order. -/
def hits (x y : Nat) : List UInt8 → List (Fin 2048)
  | [] => []
  | row :: rest => (columns row).map (fun c => cell (x + c) y) ++ hits x (y + 1) rest

/-- One hit: the cell is toggled, and a cell found lit makes a collision. -/
def hit : Screen × Bool → Fin 2048 → Screen × Bool
  | (s, collision), i =>
    let found := s.isLit i
    (s.toggle i, collision || found)

/-- A sprite drawn at column `x`, row `y`, and whether a lit pixel was turned off. -/
def draw (s : Screen) (x y : UInt8) (rows : List UInt8) : Screen × Bool :=
  (hits x.toNat y.toNat rows).foldl hit (s, false)

/-- The pixel at column `x`, row `y`. -/
def pixel (s : Screen) (x y : Nat) : Except Breach Bool :=
  if h : x < width ∧ y < height then
    .ok (s.isLit ⟨x + 64 * y, by simp only [width, height] at h; omega⟩)
  else .error (.pixel x y)

/-- Every pixel, row by row. -/
def bits (s : Screen) : List Bool := s.cells.toList

/-- Number of pixels that are on. -/
def litCount (s : Screen) : Nat := s.bits.count true

/-- Column and row of every pixel that is on, row by row. -/
def lit (s : Screen) : List (Nat × Nat) :=
  ((List.finRange 2048).filter s.isLit).map fun i => (i.val % width, i.val / width)

/-- One row as text. -/
def line (s : Screen) (y : Fin 32) : List Char :=
  List.ofFn fun x : Fin 64 => if s.isLit ⟨x + 64 * y, by omega⟩ then '#' else '.'

/-- All rows as text, each line ended. -/
def text (s : Screen) : String :=
  String.ofList ((List.finRange 32).flatMap fun y => s.line y ++ ['\n'])

/-! ### The view of each operation -/

@[ext] theorem ext {s t : Screen} (h : ∀ i, s.isLit i = t.isLit i) : s = t := by
  obtain ⟨c⟩ := s
  obtain ⟨d⟩ := t
  congr 1
  exact Vector.ext fun i hi => h ⟨i, hi⟩

@[simp] theorem isLit_blank (i : Fin 2048) : blank.isLit i = false := by
  simp [isLit, blank]

theorem isLit_toggle (s : Screen) (i j : Fin 2048) :
    (s.toggle i).isLit j = (s.isLit j ^^ decide (i = j)) := by
  by_cases h : i = j
  · subst h
    simp [isLit, toggle]
  · have h' : i.val ≠ j.val := fun e => h (Fin.ext e)
    simp [isLit, toggle, h, h']

/-- A fold of hits toggles each cell as often as the list names it. -/
theorem isLit_foldl_hit (l : List (Fin 2048)) (p : Screen × Bool) (j : Fin 2048) :
    (l.foldl hit p).1.isLit j = (p.1.isLit j ^^ decide (l.count j % 2 = 1)) := by
  induction l generalizing p with
  | nil => simp
  | cons i l ih =>
    rw [List.foldl_cons, ih, hit, isLit_toggle, List.count_cons]
    by_cases h : i = j
    · subst h
      rcases Nat.mod_two_eq_zero_or_one (l.count i) with e | e <;>
        simp [e, Nat.add_mod]
    · simp [h]

theorem isLit_draw (s : Screen) (x y : UInt8) (rows : List UInt8) (j : Fin 2048) :
    (s.draw x y rows).1.isLit j =
      (s.isLit j ^^ decide ((hits x.toNat y.toNat rows).count j % 2 = 1)) :=
  isLit_foldl_hit _ (s, false) j

end Screen

end ChipEight
