import ChipEight.Proofs.Cycle
import ChipEight.Proofs.Sprites

/-!
# ChipEight.Proofs.Drawing — the instruction that draws

`Vm.Draws` says what an executed draw leaves: every pixel that a set bit of the sprite lands on is
switched over, and the flag register tells whether one of them was on.  Main statement: the draw
instruction does so with the bytes that `I` points to and the place held by its two registers, whatever
they are, and the same instruction once more undoes it unless its flag moved the place
(`draw_then_undraw`).
-/

namespace ChipEight

/-! ### Low sprites -/

namespace Screen

variable {x y : UInt8} {rows : List UInt8} {px py : Nat}

/-- A set bit of the sprite lands on the pixel. -/
def Covers (x y : UInt8) (rows : List UInt8) (px py : Nat) : Prop :=
  ∃ p ∈ setBits rows, landing x y p = (px, py)

instance (x y : UInt8) (rows : List UInt8) (px py : Nat) : Decidable (Covers x y rows px py) :=
  inferInstanceAs (Decidable (∃ p ∈ setBits rows, landing x y p = (px, py)))

theorem covers_landing {p : Nat × Nat} (hp : p ∈ setBits rows) :
    Covers x y rows (landing x y p).1 (landing x y p).2 := ⟨p, hp, rfl⟩

/-- No more rows than the screen has land on a pixel once at most. -/
theorem odd_hitCount_iff (h : rows.length ≤ height) (hx : px < width) (hy : py < height) :
    hitCount x y rows px py % 2 = 1 ↔ Covers x y rows px py := by
  have hle := hitCount_le_one x y h hx hy
  have hpos : 0 < hitCount x y rows px py ↔ Covers x y rows px py := by
    simp only [hitCount, List.countP_pos_iff, decide_eq_true_eq]
    exact Iff.rfl
  rw [← hpos]
  omega

theorem pixel_draw_of_le (s : Screen) (x y : UInt8) (h : rows.length ≤ height) (hx : px < width)
    (hy : py < height) :
    (s.draw x y rows).1.pixel px py =
      .ok (s.isLit (cell px py) ^^ decide (Covers x y rows px py)) := by
  rw [pixel_draw s x y rows hx hy, decide_eq_decide.mpr (odd_hitCount_iff h hx hy)]

/-- A pixel under a set bit is on after the draw if it was off before. -/
theorem pixel_draw_landing_iff (s : Screen) (h : rows.length ≤ height) {p : Nat × Nat}
    (hp : p ∈ setBits rows) :
    (s.draw x y rows).1.pixel (landing x y p).1 (landing x y p).2 = .ok true ↔
      s.pixel (landing x y p).1 (landing x y p).2 = .ok false := by
  have hx : (landing x y p).1 < width := Nat.mod_lt _ (by decide)
  have hy : (landing x y p).2 < height := Nat.mod_lt _ (by decide)
  have hc := covers_landing (x := x) (y := y) hp
  rw [pixel_draw_of_le s x y h hx hy, pixel_of_lt s hx hy, decide_eq_true hc]
  cases s.isLit (cell (landing x y p).1 (landing x y p).2) <;> decide

/-- A second draw of the same sprite at the same place undoes the first. -/
theorem draw_draw (s : Screen) (x y : UInt8) (rows : List UInt8) :
    ((s.draw x y rows).1.draw x y rows).1 = s := by
  ext i
  rw [isLit_draw, isLit_draw, Bool.xor_assoc, Bool.xor_self, Bool.xor_false]

/-- It meets a lit pixel if a set bit lands on one that was off before the first. -/
theorem collision_draw_draw (s : Screen) (h : rows.length ≤ height) :
    ((s.draw x y rows).1.draw x y rows).2 = true ↔
      ∃ p ∈ setBits rows, s.pixel (landing x y p).1 (landing x y p).2 = .ok false := by
  rw [collision_draw_of_le _ x y h]
  constructor
  · rintro ⟨p, hp, hlit⟩
    exact ⟨p, hp, (pixel_draw_landing_iff s h hp).mp hlit⟩
  · rintro ⟨p, hp, hdark⟩
    exact ⟨p, hp, (pixel_draw_landing_iff s h hp).mpr hdark⟩

theorem pixel_landing_blank (x y : UInt8) (p : Nat × Nat) :
    blank.pixel (landing x y p).1 (landing x y p).2 = .ok false := by
  rw [pixel_landing, isLit_blank]

end Screen

/-! ### The instruction -/

/-- A sprite is no higher than the screen. -/
theorem Memory.length_block_le (m : Memory) {address : Nat} {n : Nibble}
    (h : address + n ≤ size) : (m.block address n h).length ≤ Screen.height := by
  rw [length_block]
  simp only [Screen.height]
  omega

namespace Vm

variable {vm : Vm} {i : Instr} {x y : Reg} {n : Nibble}

/-- The instruction draws the sprite with its first row at column `x`, row `y`: the pixels under its
set bits are switched over, the flag register becomes one if one of them was on and zero otherwise,
the screen has to be shown again, and nothing else changes. -/
structure Draws (vm : Vm) (i : Instr) (x y : UInt8) (rows : List UInt8) (after : Vm) : Prop where
  does : vm.Does i .draw after
  pixels : ∀ px py, px < Screen.width → py < Screen.height →
    ∃ old, vm.machine.screen.pixel px py = .ok old ∧
      after.machine.screen.pixel px py = .ok (old ^^ decide (Screen.Covers x y rows px py))
  flag_bit : after.machine.reg Reg.flag = 0 ∨ after.machine.reg Reg.flag = 1
  flag_iff : after.machine.reg Reg.flag = 1 ↔
    ∃ p ∈ Screen.setBits rows,
      vm.machine.screen.pixel (Screen.landing x y p).1 (Screen.landing x y p).2 = .ok true
  others : ∀ r, r ≠ Reg.flag → after.machine.reg r = vm.machine.reg r
  rest_eq : after = { vm with
    machine := { vm.machine with regs := after.machine.regs, screen := after.machine.screen }
    redraw := true }

/-- The machine in which a sprite was drawn. -/
def drawn (vm : Vm) (x y : UInt8) (rows : List UInt8) : Vm :=
  let result := vm.machine.screen.draw x y rows
  { vm with
    machine := ({ vm.machine with screen := result.1 }).setFlag result.2
    redraw := true }

theorem reg_flag_drawn (vm : Vm) (x y : UInt8) (rows : List UInt8) :
    (vm.drawn x y rows).machine.reg Reg.flag =
      if (vm.machine.screen.draw x y rows).2 then 1 else 0 := by
  show (Machine.setFlag _ _).reg Reg.flag = _
  rw [Machine.reg_setFlag, if_pos rfl]

theorem reg_flag_drawn_iff (vm : Vm) (x y : UInt8) (rows : List UInt8) :
    (vm.drawn x y rows).machine.reg Reg.flag = 1 ↔ (vm.machine.screen.draw x y rows).2 = true := by
  rw [reg_flag_drawn]
  cases (vm.machine.screen.draw x y rows).2 <;> decide

theorem reg_drawn_of_ne (vm : Vm) (x y : UInt8) (rows : List UInt8) {r : Reg} (hr : r ≠ Reg.flag) :
    (vm.drawn x y rows).machine.reg r = vm.machine.reg r := by
  show (Machine.setFlag _ _).reg r = _
  rw [Machine.reg_setFlag, if_neg hr.symm]
  rfl

theorem draws_drawn {x y : UInt8} {rows : List UInt8} (hrows : rows.length ≤ Screen.height)
    (h : ∀ random, (Act.exec random i).run vm = .ok { notice := .draw } (vm.drawn x y rows)) :
    vm.Draws i x y rows (vm.drawn x y rows) where
  does := .of_run h
  pixels px py hx hy :=
    ⟨_, Screen.pixel_of_lt _ hx hy, Screen.pixel_draw_of_le _ x y hrows hx hy⟩
  flag_bit := by
    rw [reg_flag_drawn]
    cases (vm.machine.screen.draw x y rows).2 <;> decide
  flag_iff := by rw [reg_flag_drawn_iff, Screen.collision_draw_of_le _ x y hrows]
  others r hr := reg_drawn_of_ne vm x y rows hr
  rest_eq := rfl

theorem draws_block (h : vm.machine.index.toNat + n ≤ Memory.size) :
    let rows := vm.machine.memory.block vm.machine.index.toNat n h
    vm.Draws (.draw x y n) (vm.machine.reg x) (vm.machine.reg y) rows
      (vm.drawn (vm.machine.reg x) (vm.machine.reg y) rows) :=
  draws_drawn (Memory.length_block_le _ h) fun _ => Act.run_execDraw h

/-- As long as the `n` bytes that `I` points to lie within memory, the draw instruction draws them at
the place that its registers hold before, which the flag may overwrite.  If neither of them is the
flag register, the same instruction executed again, with registers, `I`, memory and screen as the
first left them, brings the screen back, and its flag is one if a set bit lands on a pixel that was
off at first.  On a blank screen the first flag is zero, and the second one if there is a set bit. -/
theorem draw_then_undraw (vm : Vm) (x y : Reg) (n : Nibble)
    (h : vm.machine.index.toNat + n ≤ Memory.size) :
    let column := vm.machine.reg x
    let row := vm.machine.reg y
    let rows := vm.machine.memory.block vm.machine.index.toNat n h
    ∃ after, vm.Draws (.draw x y n) column row rows after ∧
      (vm.machine.screen = Screen.blank → after.machine.reg Reg.flag = 0) ∧
      (x ≠ Reg.flag → y ≠ Reg.flag →
        ∀ later : Vm, later.machine.regs = after.machine.regs →
          later.machine.index = after.machine.index →
          later.machine.memory = after.machine.memory →
          later.machine.screen = after.machine.screen →
          ∃ again, later.Draws (.draw x y n) column row rows again ∧
            again.machine.screen = vm.machine.screen ∧
            (again.machine.reg Reg.flag = 1 ↔
              ∃ p ∈ Screen.setBits rows, vm.machine.screen.pixel
                (Screen.landing column row p).1 (Screen.landing column row p).2 = .ok false) ∧
            (vm.machine.screen = Screen.blank →
              (again.machine.reg Reg.flag = 1 ↔ ∃ p, p ∈ Screen.setBits rows))) := by
  intro column row rows
  have hfirst : vm.Draws (.draw x y n) column row rows (vm.drawn column row rows) := draws_block h
  refine ⟨_, hfirst, fun hblank => ?_, fun hx hy later hregs hindex hmemory hscreen => ?_⟩
  · refine hfirst.flag_bit.resolve_right fun hone => ?_
    obtain ⟨p, -, hlit⟩ := hfirst.flag_iff.mp hone
    rw [hblank, Screen.pixel_landing_blank] at hlit
    cases hlit
  · -- the second draw reads the same bytes and the same place
    have hreg : ∀ r, r ≠ Reg.flag → later.machine.reg r = vm.machine.reg r := by
      intro r hr
      rw [← hfirst.others r hr, Machine.reg, Machine.reg, hregs]
    have hlater : later.machine.index.toNat + n ≤ Memory.size := by
      rw [hindex]
      exact h
    have hblock : later.machine.memory.block later.machine.index.toNat n hlater = rows := by
      simp only [hmemory, hindex]
      rfl
    have hsecond : later.Draws (.draw x y n) _ _ _ _ := draws_block hlater
    rw [hblock, hreg x hx, hreg y hy] at hsecond
    have hflag : (later.drawn column row rows).machine.reg Reg.flag = 1 ↔
        ∃ p ∈ Screen.setBits rows, vm.machine.screen.pixel
          (Screen.landing column row p).1 (Screen.landing column row p).2 = .ok false := by
      rw [reg_flag_drawn_iff, hscreen]
      exact Screen.collision_draw_draw _ (Memory.length_block_le _ h)
    refine ⟨_, hsecond, ?_, hflag, fun hblank => ?_⟩
    · show (later.machine.screen.draw column row rows).1 = vm.machine.screen
      rw [hscreen]
      exact Screen.draw_draw _ _ _ _
    · rw [hflag, hblank]
      simp only [Screen.pixel_landing_blank, and_true]

/-- The glyph of zero drawn twice into the corner of a blank screen. -/
theorem draw_then_undraw_glyph :
    let vm := new {}
    ∃ after again, vm.Draws (.draw 0 1 5) 0 0 [0xF0, 0x90, 0x90, 0x90, 0xF0] after ∧
      after.machine.reg Reg.flag = 0 ∧
      after.Draws (.draw 0 1 5) 0 0 [0xF0, 0x90, 0x90, 0x90, 0xF0] again ∧
      again.machine.screen = Screen.blank ∧ again.machine.reg Reg.flag = 1 := by
  intro vm
  have hfits : vm.machine.index.toNat + (5 : Nibble) ≤ Memory.size := by decide
  have hrows : vm.machine.memory.block vm.machine.index.toNat (5 : Nibble) hfits =
      [0xF0, 0x90, 0x90, 0x90, 0xF0] := Memory.block_store hfits (by decide)
  obtain ⟨after, hfirst, hdark, hsecond⟩ := draw_then_undraw vm 0 1 5 hfits
  obtain ⟨again, hagain, hscreen, -, hblank⟩ :=
    hsecond (by decide) (by decide) after rfl rfl rfl rfl
  have hzero : vm.machine.reg 0 = 0 ∧ vm.machine.reg 1 = 0 := by decide
  rw [hzero.1, hzero.2, hrows] at hfirst hagain
  refine ⟨after, again, hfirst, hdark rfl, hagain, hscreen, (hblank rfl).mpr ⟨(0, 0), ?_⟩⟩
  rw [hrows]
  decide

end Vm

end ChipEight
