import ChipEight.Screen
import Mathlib.Algebra.BigOperators.Ring.Finset
import Mathlib.Data.List.ProdSigma

/-!
# ChipEight.Proofs.Sprites — what drawing does to each pixel

A sprite is seen as the list of its set bits, and each lands on one pixel (`setBits`, `landing`).
Main statements: a draw switches a pixel over as often as set bits land on it, and reports a
collision if and only if one of them finds its pixel lit (`draw_switches_hits`); and the screen
after several draws does not depend on their order, nor on pairs of the same one
(`drawAll_order_free`).
-/

namespace ChipEight.Screen

variable {s : Screen} {x y : UInt8} {rows : List UInt8} {px py : Nat}

/-- Row and column of every set bit of a sprite. -/
def setBits (rows : List UInt8) : List (Nat × Nat) :=
  (List.range rows.length ×ˢ List.range spriteWidth).filter fun p =>
    (rows.getD p.1 0).toNat.testBit (7 - p.2)

/-- Column and row of the pixel that the bit at a row and a column lands on, when the sprite starts
at column `x`, row `y`. -/
def landing (x y : UInt8) (p : Nat × Nat) : Nat × Nat :=
  ((x.toNat + p.2) % width, (y.toNat + p.1) % height)

/-- How many set bits land on a pixel. -/
def hitCount (x y : UInt8) (rows : List UInt8) (px py : Nat) : Nat :=
  (setBits rows).countP fun p => landing x y p = (px, py)

/-- How many set bits land on pixels that are on. -/
def litHits (s : Screen) (x y : UInt8) (rows : List UInt8) : Nat :=
  (setBits rows).countP fun p => s.pixel (landing x y p).1 (landing x y p).2 = .ok true

/-! ### Pixels and cells -/

theorem cell_eq_iff {a b : Nat} (hx : px < width) (hy : py < height) :
    cell a b = cell px py ↔ (a % width, b % height) = (px, py) := by
  simp only [width, height] at hx hy ⊢
  rw [cell, cell, Fin.mk.injEq, Prod.mk.injEq]
  omega

theorem exists_eq_cell (i : Fin 2048) : ∃ px py, px < width ∧ py < height ∧ i = cell px py := by
  have hi := i.isLt
  refine ⟨i % 64, i / 64, ?_, ?_, Fin.ext ?_⟩
  · simp only [width]
    omega
  · simp only [height]
    omega
  · simp only [cell]
    omega

theorem pixel_of_lt (s : Screen) (hx : px < width) (hy : py < height) :
    s.pixel px py = .ok (s.isLit (cell px py)) := by
  rw [pixel, dif_pos ⟨hx, hy⟩]
  simp only [cell, Nat.mod_eq_of_lt hx, Nat.mod_eq_of_lt hy]

theorem pixel_blank (hx : px < width) (hy : py < height) : blank.pixel px py = .ok false := by
  rw [pixel_of_lt blank hx hy, isLit_blank]

theorem pixel_eq_true_iff (hx : px < width) (hy : py < height) :
    s.pixel px py = .ok true ↔ s.isLit (cell px py) = true := by
  rw [pixel_of_lt s hx hy, Except.ok.injEq]

theorem pixel_landing (s : Screen) (x y : UInt8) (p : Nat × Nat) :
    s.pixel (landing x y p).1 (landing x y p).2 =
      .ok (s.isLit (cell (x.toNat + p.2) (y.toNat + p.1))) := by
  have hx : (landing x y p).1 < width := Nat.mod_lt _ (by decide)
  have hy : (landing x y p).2 < height := Nat.mod_lt _ (by decide)
  rw [pixel_of_lt s hx hy, (cell_eq_iff hx hy).mpr rfl]

/-! ### Hits and set bits -/

theorem mem_setBits {r c : Nat} :
    (r, c) ∈ setBits rows ↔
      (r < rows.length ∧ c < spriteWidth) ∧ (rows.getD r 0).toNat.testBit (7 - c) = true := by
  rw [setBits, List.mem_filter, List.mem_product, List.mem_range, List.mem_range]

theorem columns_eq (row : UInt8) (rest : List UInt8) :
    ((List.range spriteWidth).map (Prod.mk 0)).filter
        (fun p => ((row :: rest).getD p.1 0).toNat.testBit (7 - p.2)) =
      (columns row).map (Prod.mk 0) := by
  rw [List.filter_map]
  rfl

/-- The set bits of the first row, and those of the other rows one row further down. -/
theorem setBits_cons (row : UInt8) (rest : List UInt8) :
    setBits (row :: rest) =
      (columns row).map (Prod.mk 0) ++ (setBits rest).map fun p => (p.1 + 1, p.2) := by
  have hdown : (List.range rest.length).map Nat.succ ×ˢ List.range spriteWidth =
      (List.range rest.length ×ˢ List.range spriteWidth).map fun p => (p.1 + 1, p.2) := by
    simp [SProd.sprod, List.product, List.flatMap_map, List.map_flatMap, Function.comp_def]
  rw [setBits, List.length_cons, List.range_succ_eq_map, List.product_cons, List.filter_append,
    columns_eq, hdown, List.filter_map]
  rfl

/-- The cells hit are those that the set bits land on, in the same order. -/
theorem hits_eq_map (x y : Nat) (rows : List UInt8) :
    hits x y rows = (setBits rows).map fun p => cell (x + p.2) (y + p.1) := by
  induction rows generalizing y with
  | nil => rfl
  | cons row rest ih =>
    rw [hits, ih, setBits_cons, List.map_append, List.map_map, List.map_map]
    simp only [Function.comp_def, Nat.add_zero, Nat.add_assoc, Nat.add_comm 1]

theorem count_hits (rows : List UInt8) (hx : px < width) (hy : py < height) :
    (hits x.toNat y.toNat rows).count (cell px py) = hitCount x y rows px py := by
  rw [hits_eq_map, List.count_eq_countP, List.countP_map, hitCount]
  refine List.countP_congr fun p _ => ?_
  simp only [Function.comp_apply, beq_iff_eq, decide_eq_true_eq]
  exact cell_eq_iff hx hy

/-- A sprite that is no higher than the screen hits no cell twice. -/
theorem nodup_hits (x y : Nat) (h : rows.length ≤ height) : (hits x y rows).Nodup := by
  have hbits : (setBits rows).Nodup := (List.nodup_range.product List.nodup_range).filter _
  rw [hits_eq_map]
  refine hbits.map_on ?_
  rintro ⟨r, c⟩ hp ⟨r', c'⟩ hp' heq
  have hin := (mem_setBits.mp hp).1
  have hin' := (mem_setBits.mp hp').1
  simp only [height, spriteWidth] at h hin hin'
  simp only [cell, Fin.mk.injEq] at heq
  rw [Prod.mk.injEq]
  omega

/-! ### What a list of hits does -/

/-- A hit finds its cell lit if it was lit from the start, or if an earlier hit lit it. -/
theorem collision_foldl_hit (l : List (Fin 2048)) (s : Screen) (b : Bool) :
    (l.foldl hit (s, b)).2 = true ↔
      b = true ∨ ∃ i, s.isLit i = true ∧ 1 ≤ l.count i ∨ 2 ≤ l.count i := by
  induction l generalizing s b with
  | nil => simp
  | cons i l ih =>
    rw [List.foldl_cons, hit, ih]
    simp only [isLit_toggle, Bool.or_eq_true, or_assoc]
    refine or_congr_right ?_
    -- the first hit toggles the cell `i` and counts as one hit of it
    constructor
    · rintro (hi | ⟨j, hj⟩)
      · exact ⟨i, .inl ⟨hi, by simp⟩⟩
      · refine ⟨j, ?_⟩
        by_cases hij : i = j
        · subst hij
          rw [List.count_cons_self]
          omega
        · simpa [hij, List.count_cons_of_ne hij] using hj
    · rintro ⟨j, hj⟩
      by_cases hij : i = j
      · subst hij
        rw [List.count_cons_self] at hj
        cases hi : s.isLit i with
        | true => exact .inl rfl
        | false =>
          refine .inr ⟨i, .inl ⟨by simp [hi], ?_⟩⟩
          simp only [hi, Bool.false_eq_true, false_and, false_or] at hj
          omega
      · refine .inr ⟨j, ?_⟩
        simpa [hij, List.count_cons_of_ne hij] using hj

theorem litCount_toggle (s : Screen) (i : Fin 2048) :
    (s.toggle i).litCount + 2 * (s.isLit i).toNat = s.litCount + 1 := by
  have hlt : i.val < s.bits.length := by simp [bits]
  have hget : s.bits[i.val] = s.isLit i := by simp [bits, isLit]
  have hbits : (s.toggle i).bits = s.bits.set i (!s.isLit i) := Vector.toList_set i.isLt
  rw [litCount, hbits, List.count_set hlt, hget, litCount]
  cases hi : s.isLit i with
  | true =>
    have hpos : 0 < s.bits.count true := by
      rw [List.count_pos_iff, ← hi, ← hget]
      exact List.getElem_mem hlt
    simp
    omega
  | false => simp

/-- Cells that are hit once each go on or off by how they were. -/
theorem litCount_foldl_hit {l : List (Fin 2048)} (hl : l.Nodup) (s : Screen) (b : Bool) :
    (l.foldl hit (s, b)).1.litCount + 2 * l.countP s.isLit = s.litCount + l.length := by
  induction l generalizing s b with
  | nil => simp
  | cons i l ih =>
    rw [List.nodup_cons] at hl
    have hrest : l.countP (s.toggle i).isLit = l.countP s.isLit := by
      refine List.countP_congr fun j hj => ?_
      have hij : i ≠ j := fun e => hl.1 (e ▸ hj)
      simp [isLit_toggle, hij]
    have hfirst := litCount_toggle s i
    have hlater := ih hl.2 (s.toggle i) (b || s.isLit i)
    rw [hrest] at hlater
    rw [List.foldl_cons, hit, List.countP_cons, List.length_cons]
    cases hi : s.isLit i with
    | true =>
      simp [hi] at hfirst hlater ⊢
      omega
    | false =>
      simp [hi] at hfirst hlater ⊢
      omega

/-! ### One draw -/

theorem pixel_draw (s : Screen) (x y : UInt8) (rows : List UInt8) (hx : px < width)
    (hy : py < height) :
    (s.draw x y rows).1.pixel px py =
      .ok (s.isLit (cell px py) ^^ decide (hitCount x y rows px py % 2 = 1)) := by
  rw [pixel_of_lt _ hx hy, isLit_draw, count_hits rows hx hy]

theorem collision_draw (s : Screen) (x y : UInt8) (rows : List UInt8) :
    (s.draw x y rows).2 = true ↔
      ∃ px py, px < width ∧ py < height ∧
        (s.pixel px py = .ok true ∧ 1 ≤ hitCount x y rows px py ∨
          2 ≤ hitCount x y rows px py) := by
  rw [draw, collision_foldl_hit]
  simp only [Bool.false_eq_true, false_or]
  constructor
  · rintro ⟨i, hi⟩
    obtain ⟨px, py, hx, hy, rfl⟩ := exists_eq_cell i
    rw [count_hits rows hx hy, ← pixel_eq_true_iff hx hy] at hi
    exact ⟨px, py, hx, hy, hi⟩
  · rintro ⟨px, py, hx, hy, hi⟩
    refine ⟨cell px py, ?_⟩
    rw [count_hits rows hx hy, ← pixel_eq_true_iff hx hy]
    exact hi

theorem hitCount_le_one (x y : UInt8) (h : rows.length ≤ height) (hx : px < width)
    (hy : py < height) : hitCount x y rows px py ≤ 1 := by
  rw [← count_hits rows hx hy]
  exact List.nodup_iff_count_le_one.mp (nodup_hits _ _ h) _

/-- Without a second hit, a collision is a set bit on a pixel that was on before. -/
theorem collision_draw_of_le (s : Screen) (x y : UInt8) (h : rows.length ≤ height) :
    (s.draw x y rows).2 = true ↔
      ∃ p ∈ setBits rows, s.pixel (landing x y p).1 (landing x y p).2 = .ok true := by
  rw [collision_draw]
  constructor
  · rintro ⟨px, py, hx, hy, ⟨hlit, hhit⟩ | htwice⟩
    · obtain ⟨p, hp, hland⟩ := List.countP_pos_iff.mp hhit
      refine ⟨p, hp, ?_⟩
      rw [of_decide_eq_true hland]
      exact hlit
    · have hle := hitCount_le_one x y h hx hy
      omega
  · rintro ⟨p, hp, hlit⟩
    have hx : (landing x y p).1 < width := Nat.mod_lt _ (by decide)
    have hy : (landing x y p).2 < height := Nat.mod_lt _ (by decide)
    refine ⟨_, _, hx, hy, .inl ⟨hlit, ?_⟩⟩
    exact List.countP_pos_iff.mpr ⟨p, hp, decide_eq_true rfl⟩

theorem litCount_draw (s : Screen) (x y : UInt8) (h : rows.length ≤ height) :
    (s.draw x y rows).1.litCount + 2 * litHits s x y rows =
      s.litCount + (setBits rows).length := by
  have hlit : (hits x.toNat y.toNat rows).countP s.isLit = litHits s x y rows := by
    rw [hits_eq_map, List.countP_map, litHits]
    refine List.countP_congr fun p _ => ?_
    rw [decide_eq_true_iff, pixel_landing, Except.ok.injEq]
    rfl
  have hlength : (hits x.toNat y.toNat rows).length = (setBits rows).length := by
    rw [hits_eq_map, List.length_map]
  rw [draw, ← hlit, ← hlength]
  exact litCount_foldl_hit (nodup_hits _ _ h) s false

/-- A draw switches each pixel over as often as set bits land on it, both edges wrapped around, and
reports a collision if and only if some pixel was on and is hit, or is hit twice.  With no more rows
than the screen has, no pixel is hit twice: then a collision is a set bit that lands on a pixel that
was on, and each set bit makes one more pixel lit, or one less if it landed on such a one. -/
theorem draw_switches_hits (s : Screen) (x y : UInt8) (rows : List UInt8) :
    (∀ px py, px < width → py < height → ∃ old, s.pixel px py = .ok old ∧
      (s.draw x y rows).1.pixel px py = .ok (old ^^ decide (hitCount x y rows px py % 2 = 1))) ∧
    ((s.draw x y rows).2 = true ↔
      ∃ px py, px < width ∧ py < height ∧
        (s.pixel px py = .ok true ∧ 1 ≤ hitCount x y rows px py ∨
          2 ≤ hitCount x y rows px py)) ∧
    (rows.length ≤ height →
      (∀ px py, px < width → py < height → hitCount x y rows px py ≤ 1) ∧
      ((s.draw x y rows).2 = true ↔
        ∃ p ∈ setBits rows, s.pixel (landing x y p).1 (landing x y p).2 = .ok true) ∧
      ((s.draw x y rows).1.litCount : Int) =
        s.litCount + ((setBits rows).length - 2 * litHits s x y rows)) := by
  refine ⟨fun px py hx hy => ?_, collision_draw s x y rows, fun h => ⟨?_, ?_, ?_⟩⟩
  · exact ⟨_, pixel_of_lt s hx hy, pixel_draw s x y rows hx hy⟩
  · exact fun px py hx hy => hitCount_le_one x y h hx hy
  · exact collision_draw_of_le s x y h
  · have hcount := litCount_draw s x y h
    omega

/-- Two rows that wrap around both edges, on a screen with nothing on it: the corner goes on, there
is no collision, and five pixels are lit. -/
theorem draw_switches_hits_corner :
    let drawn := blank.draw 62 31 [0xF0, 0x80]
    drawn.1.pixel 1 31 = .ok true ∧ drawn.2 = false ∧ drawn.1.litCount = 5 := by
  intro drawn
  have hdark : ∀ p ∈ setBits [0xF0, 0x80],
      blank.pixel (landing 62 31 p).1 (landing 62 31 p).2 ≠ .ok true := by
    intro p _
    rw [pixel_landing, isLit_blank]
    nofun
  obtain ⟨hpixel, -, hlow⟩ := draw_switches_hits blank 62 31 [0xF0, 0x80]
  obtain ⟨-, hcollision, hcount⟩ := hlow (by decide)
  obtain ⟨old, hold, hnew⟩ := hpixel 1 31 (by decide) (by decide)
  refine ⟨?_, ?_, ?_⟩
  · rw [pixel_of_lt _ (by decide) (by decide), isLit_blank, Except.ok.injEq] at hold
    rw [hnew, ← hold]
    decide
  · rw [← Bool.not_eq_true, hcollision]
    rintro ⟨p, hp, hlit⟩
    exact hdark p hp hlit
  · have hnone : litHits blank 62 31 [0xF0, 0x80] = 0 := by
      rw [litHits, List.countP_eq_zero]
      intro p hp hlit
      exact hdark p hp (of_decide_eq_true hlit)
    have hbits : (setBits [0xF0, 0x80]).length = 5 := by decide
    have hblank : blank.litCount = 0 := by
      rw [litCount, bits, blank, Vector.toList_replicate, List.count_replicate]
      rfl
    rw [hnone, hbits, hblank] at hcount
    exact Int.ofNat_inj.mp hcount

/-! ### Several draws -/

/-- A sprite and where it is drawn. -/
structure Sprite where
  x : UInt8
  y : UInt8
  rows : List UInt8
  deriving DecidableEq

/-- The cells that a sprite hits. -/
def Sprite.cells (d : Sprite) : List (Fin 2048) := hits d.x.toNat d.y.toNat d.rows

/-- The screen after some draws, one after the other. -/
def drawAll (s : Screen) (l : List Sprite) : Screen :=
  l.foldl (fun s d => (s.draw d.x d.y d.rows).1) s

theorem decide_odd_add (a b : Nat) :
    decide ((a + b) % 2 = 1) = (decide (a % 2 = 1) ^^ decide (b % 2 = 1)) := by
  rcases Nat.mod_two_eq_zero_or_one a with ha | ha <;>
    rcases Nat.mod_two_eq_zero_or_one b with hb | hb <;> simp [Nat.add_mod, ha, hb]

/-- Together the draws switch a cell over as often as all of them hit it. -/
theorem isLit_drawAll (s : Screen) (l : List Sprite) (i : Fin 2048) :
    (s.drawAll l).isLit i =
      (s.isLit i ^^ decide ((l.flatMap Sprite.cells).count i % 2 = 1)) := by
  induction l generalizing s with
  | nil => simp [drawAll]
  | cons d l ih =>
    have hrest := ih (s.draw d.x d.y d.rows).1
    rw [isLit_draw, Bool.xor_assoc] at hrest
    rw [List.flatMap_cons, List.count_append, decide_odd_add]
    exact hrest

/-- When every draw is made an even number of times, each cell is hit an even number of times. -/
theorem even_count_of_even {l : List Sprite} (h : ∀ d ∈ l, 2 ∣ l.count d) (i : Fin 2048) :
    2 ∣ (l.flatMap Sprite.cells).count i := by
  rw [List.count_flatMap, Finset.sum_list_map_count]
  refine Finset.dvd_sum fun d hd => ?_
  exact (h d (List.mem_toFinset.mp hd)).mul_right _

/-- The screen after some draws does not depend on their order, and draws each of which is made an
even number of times leave no trace. -/
theorem drawAll_order_free (s : Screen) (l : List Sprite) :
    (∀ l', l.Perm l' → s.drawAll l' = s.drawAll l) ∧
      ((∀ d ∈ l, 2 ∣ l.count d) → s.drawAll l = s) := by
  refine ⟨fun l' hperm => ?_, fun heven => ?_⟩
  · ext i
    rw [isLit_drawAll, isLit_drawAll, (hperm.flatMap_right Sprite.cells).count_eq]
  · ext i
    have hcount := even_count_of_even heven i
    rw [isLit_drawAll, Nat.dvd_iff_mod_eq_zero.mp hcount]
    simp

/-- A sprite higher than the screen and a dot, each drawn twice. -/
theorem drawAll_order_free_tall :
    let tall : Sprite := ⟨60, 30, List.replicate 33 0xFF⟩
    let dot : Sprite := ⟨0, 0, [0x80]⟩
    blank.drawAll [dot, tall] = blank.drawAll [tall, dot] ∧
      blank.drawAll [tall, dot, dot, tall] = blank := by
  intro tall dot
  refine ⟨?_, ?_⟩
  · exact (drawAll_order_free blank [tall, dot]).1 [dot, tall] (.swap dot tall [])
  · exact (drawAll_order_free blank [tall, dot, dot, tall]).2 (by decide)

end ChipEight.Screen
