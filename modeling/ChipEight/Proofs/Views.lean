import ChipEight.Proofs.Sprites

/-!
# ChipEight.Proofs.Views — the ways to look at a screen

A screen is seen pixel by pixel, as the list of its cells, as the list of the pixels that are on, and
as text.  Main statement: all of them show the same pixels, whatever is on the screen
(`views_agree`).  A pixel and its cell determine each other, so each view is told by what it has to
say of `cell px py`.
-/

namespace ChipEight.Screen

variable {s : Screen} {px py : Nat}

/-- The pixel comes before the other one, row by row. -/
def Before (p q : Nat × Nat) : Prop := p.2 < q.2 ∨ p.2 = q.2 ∧ p.1 < q.1

/-- How a pixel is written. -/
def mark (on : Bool) : Char := if on then '#' else '.'

theorem mark_ne_newline (on : Bool) : mark on ≠ '\n' := by cases on <;> decide

/-! ### Pixels and their cells -/

theorem cell_val (hx : px < width) (hy : py < height) : (cell px py).val = px + 64 * py := by
  simp only [cell, Nat.mod_eq_of_lt hx, Nat.mod_eq_of_lt hy]

/-- The numbers that the list of lit pixels makes of a cell are its column and row. -/
theorem column_row_cell (hx : px < width) (hy : py < height) :
    ((cell px py).val % width, (cell px py).val / width) = (px, py) := by
  rw [cell_val hx hy, Prod.mk.injEq]
  simp only [width] at hx ⊢
  omega

/-- Only a pixel of the screen can be looked at. -/
theorem exists_pixel_error_iff : (∃ e, s.pixel px py = .error e) ↔ width ≤ px ∨ height ≤ py := by
  by_cases h : px < width ∧ py < height
  · rw [pixel_of_lt s h.1 h.2]
    refine iff_of_false (fun ⟨e, he⟩ => by cases he) ?_
    omega
  · rw [pixel, dif_neg h]
    refine iff_of_true ⟨_, rfl⟩ ?_
    omega

/-! ### The lists -/

theorem length_bits (s : Screen) : s.bits.length = 2048 := by
  rw [bits, Vector.length_toList]

theorem getElem?_bits (s : Screen) (i : Fin 2048) : s.bits[i.val]? = some (s.isLit i) := by
  rw [bits, Vector.getElem?_toList, Vector.getElem?_eq_getElem i.isLt]
  rfl

/-- The list of lit pixels has pixels of the screen only, those whose cells are on. -/
theorem mem_lit_iff :
    (px, py) ∈ s.lit ↔ px < width ∧ py < height ∧ s.isLit (cell px py) = true := by
  simp only [lit, List.mem_map, List.mem_filter, List.mem_finRange, true_and]
  constructor
  · rintro ⟨i, hi, hp⟩
    obtain ⟨qx, qy, hx, hy, rfl⟩ := exists_eq_cell i
    rw [column_row_cell hx hy] at hp
    cases hp
    exact ⟨hx, hy, hi⟩
  · rintro ⟨hx, hy, h⟩
    exact ⟨_, h, column_row_cell hx hy⟩

theorem mem_lit_iff_pixel :
    (px, py) ∈ s.lit ↔ px < width ∧ py < height ∧ s.pixel px py = .ok true := by
  rw [mem_lit_iff]
  refine and_congr_right fun hx => and_congr_right fun hy => ?_
  exact (pixel_eq_true_iff hx hy).symm

/-- Cells in order are pixels in order. -/
theorem before_of_lt {i j : Fin 2048} (h : i < j) :
    Before (i.val % width, i.val / width) (j.val % width, j.val / width) := by
  simp only [Before, width]
  omega

theorem lit_pairwise (s : Screen) : s.lit.Pairwise Before := by
  refine List.Pairwise.map _ (fun _ _ => before_of_lt) ?_
  exact (List.pairwise_lt_finRange 2048).filter _

theorem nodup_lit (s : Screen) : s.lit.Nodup := by
  refine s.lit_pairwise.imp fun {p q} h => ?_
  rintro rfl
  simp only [Before] at h
  omega

/-! ### The text -/

theorem toList_text (s : Screen) :
    s.text.toList = ((List.finRange 32).map s.line).flatMap fun row => row ++ ['\n'] := by
  rw [text, String.toList_ofList, List.flatMap_map]

theorem length_line (s : Screen) (y : Fin 32) : (s.line y).length = 64 := List.length_ofFn

theorem getElem?_line (s : Screen) (hx : px < width) (hy : py < height) :
    (s.line ⟨py, hy⟩)[px]? = some (mark (s.isLit (cell px py))) := by
  have hlt : px + 64 * py < 2048 := by
    simp only [width, height] at hx hy
    omega
  have hcell : cell px py = ⟨px + 64 * py, hlt⟩ := Fin.ext (cell_val hx hy)
  rw [line, List.getElem?_ofFn, dif_pos hx, hcell]
  rfl

theorem newline_not_mem_line (s : Screen) (y : Fin 32) : '\n' ∉ s.line y := by
  rw [line, List.mem_ofFn]
  rintro ⟨x, hx⟩
  exact mark_ne_newline _ hx

/-- All views of a screen show the same pixels, whatever is on it.  The text has 32 lines of 64
characters, each line ended.  Of a pixel of the screen, the pixel itself, the cell with its number, its
character in its line and its place in the list of lit pixels tell the same.  That list has those
pixels only, each once, row by row.  A pixel outside of the screen is refused. -/
theorem views_agree (s : Screen) :
    ∃ lines : List (List Char),
      s.text.toList = lines.flatMap (fun row => row ++ ['\n']) ∧
      lines.length = 32 ∧
      (∀ row ∈ lines, row.length = 64 ∧ '\n' ∉ row) ∧
      s.bits.length = 2048 ∧
      (∀ px py, px < 64 → py < 32 → ∃ on,
        s.pixel px py = .ok on ∧
        s.bits[px + 64 * py]? = some on ∧
        ∃ row, lines[py]? = some row ∧ row[px]? = some (mark on)) ∧
      (∀ px py, (px, py) ∈ s.lit ↔ px < 64 ∧ py < 32 ∧ s.pixel px py = .ok true) ∧
      s.lit.Nodup ∧
      s.lit.Pairwise Before ∧
      ∀ px py, (∃ e, s.pixel px py = .error e) ↔ 64 ≤ px ∨ 32 ≤ py := by
  refine ⟨(List.finRange 32).map s.line, s.toList_text, ?_, ?_, s.length_bits, ?_,
    fun _ _ => mem_lit_iff_pixel, s.nodup_lit, s.lit_pairwise, fun _ _ => exists_pixel_error_iff⟩
  · rw [List.length_map, List.length_finRange]
  · intro row hrow
    obtain ⟨y, -, rfl⟩ := List.mem_map.mp hrow
    exact ⟨s.length_line y, s.newline_not_mem_line y⟩
  · intro px py hx hy
    refine ⟨_, pixel_of_lt s hx hy, ?_, s.line ⟨py, hy⟩, ?_, s.getElem?_line hx hy⟩
    · rw [← cell_val hx hy]
      exact s.getElem?_bits _
    · rw [List.getElem?_map, List.getElem?_eq_getElem (by rw [List.length_finRange]; exact hy)]
      simp

/-- A dot drawn into the last corner is the last cell, the last character of the last line and a lit
pixel, and one column further there is nothing to look at. -/
theorem views_agree_corner :
    let s := (blank.draw 63 31 [0x80]).1
    (∃ lines : List (List Char), s.text.toList = lines.flatMap (fun row => row ++ ['\n']) ∧
      ∃ row, lines[31]? = some row ∧ row[63]? = some '#') ∧
      s.bits[2047]? = some true ∧ (63, 31) ∈ s.lit ∧ ∃ e, s.pixel 64 31 = .error e := by
  intro s
  have hlit : s.pixel 63 31 = .ok true := by
    show (blank.draw 63 31 [0x80]).1.pixel 63 31 = _
    rw [pixel_draw blank 63 31 [0x80] (by decide) (by decide), isLit_blank]
    decide
  obtain ⟨lines, htext, -, -, -, hpixels, hlist, -, -, hrefused⟩ := views_agree s
  obtain ⟨on, hon, hbit, row, hrow, hmark⟩ := hpixels 63 31 (by decide) (by decide)
  obtain rfl : on = true := Except.ok.inj (hon.symm.trans hlit)
  exact ⟨⟨lines, htext, row, hrow, hmark⟩, hbit,
    (hlist 63 31).mpr ⟨by decide, by decide, hlit⟩, (hrefused 64 31).mpr (.inl (by decide))⟩

end ChipEight.Screen
