import ChipEight.Proofs.Drawing
import ChipEight.Proofs.Footprint
import ChipEight.Proofs.Steps

/-!
# ChipEight.Proofs.Glyphs — the glyphs of the digits on the screen

The glyphs are put at the start of memory when a machine is built and again with every program, and
a byte of memory changes only when a step writes it (`Step.Writes`).  Main statement: as long as no
step writes one of theirs, pointing `I` at the digit of a register and drawing five rows draws the
glyph of that digit, wherever on the screen (`glyph_drawn`).
-/

namespace ChipEight

/-! ### Bytes that steps write -/

/-- The step executed a word that stores something in the byte at an address. -/
def Step.Writes (s : Step) (a : Fin 4096) : Prop :=
  ∃ w, s.before.word? = some w ∧ s.before.Touches w (.byte a)

theorem Step.not_writes {s : Step} {w : UInt16} (hw : s.before.word? = some w)
    (hdigits : ¬ Word.Fits w "Fx33") (hstore : ¬ Word.Fits w "Fx55") (a : Fin 4096) :
    ¬ s.Writes a := by
  rintro ⟨w', hw', htouches⟩
  obtain rfl : w' = w := Option.some.inj (hw'.symm.trans hw)
  cases htouches with
  | digits _ _ h => exact hdigits h
  | stored _ _ h => exact hstore h

theorem Step.Taken.byte_eq {s : Step} (h : s.Taken) {a : Fin 4096} (ha : ¬ s.Writes a) :
    s.after.memory[a.val] = s.before.memory[a.val] := by
  obtain ⟨vm, random, notice, hok, hbefore, hafter⟩ := h
  obtain ⟨w, i, e, after, target, hw, hd, -, -, hx, -, hc⟩ :=
    Vm.cycle_executed (Vm.fault?_eq_none_of_ok hok) random
  have hkeep : (Part.byte a).Same vm after := by
    refine hx.keeps (.byte a) fun ht => ha ⟨w, ?_, ?_⟩
    · rw [hbefore, hw]
    · rw [hbefore, ← Instr.encode_of_decode? hd]
      exact ht
  rw [hafter, hbefore, hc]
  exact hkeep

/-- Along a path, a byte that no step writes stays what it was. -/
theorem Machine.Path.byte_eq {m m' : Machine} {ss : List Step} (h : m.Path ss m') {a : Fin 4096}
    (ha : ∀ s ∈ ss, ¬ s.Writes a) : m'.memory[a.val] = m.memory[a.val] := by
  induction h with
  | stay h => rw [h.memory_eq]
  | step h hs _ ih =>
    rw [List.forall_mem_cons] at ha
    rw [ih ha.2, hs.byte_eq ha.1, h.memory_eq]

/-! ### Glyphs in memory -/

/-- The glyphs are at the start of memory. -/
def Memory.HoldsGlyphs (m : Memory) : Prop :=
  ∀ a < 80, m.readByte a = Font.memory.readByte a

namespace Memory

variable {m : Memory}

theorem holdsGlyphs_iff :
    m.HoldsGlyphs ↔ ∀ a : Fin 4096, a.val < 80 → m[a.val] = Font.memory[a.val] := by
  constructor
  · intro h a ha
    have hread := h a ha
    rw [readByte_of_lt m a.isLt, readByte_of_lt _ a.isLt, Except.ok.injEq] at hread
    exact hread
  · intro h a ha
    have hlt : a < size := Nat.lt_trans ha (by decide)
    rw [readByte_of_lt m hlt, readByte_of_lt _ hlt, h ⟨a, hlt⟩ ha]

/-- Nothing is put where the glyphs are. -/
theorem holdsGlyphs_store {address : Nat} (h : 80 ≤ address) (bytes : List UInt8) :
    (Font.memory.store address bytes).HoldsGlyphs := by
  intro a ha
  refine readByte_store_outside fun k _ => ?_
  omega

theorem HoldsGlyphs.block_eq (h : m.HoldsGlyphs) (d : Fin 16) {address length : Nat}
    (ha : address = Font.height * d) (hl : length = Font.height)
    (hfits : address + length ≤ size) : m.block address length hfits = Font.glyph d := by
  subst ha hl
  refine List.ext_getElem ?_ fun k hk hk' => ?_
  · rw [length_block, Font.length_glyph]
  · rw [length_block] at hk
    simp only [Font.height] at hk
    have hd := d.isLt
    have hbyte := holdsGlyphs_iff.mp h ⟨Font.height * d + k, by simp only [Font.height]; omega⟩
      (by simp only [Font.height]; omega)
    simp only [block, List.getElem_ofFn, Font.glyph, List.getElem_take, List.getElem_drop]
    rw [hbyte, Font.memory, getElem_store, dif_pos]
    · simp only [Font.start, Nat.sub_zero]
    · simp only [Font.start, Font.height, Font.length_rows]
      omega

end Memory

namespace Vm

/-- A machine has the glyphs when it is built and when a program is installed. -/
theorem holdsGlyphs_of_fresh (config : Config) {front : List Operation}
    (h : front = [] ∨ ∃ op, front.getLast? = some op ∧ op.Installs) :
    ((new config).afterAll front).machine.memory.HoldsGlyphs := by
  rcases h with rfl | ⟨op, hlast, hop⟩
  · exact fun _ _ => rfl
  · obtain ⟨early, rfl⟩ := List.getLast?_eq_some_iff.mp hlast
    obtain ⟨program, -, hvm⟩ := perform_of_installs hop ((new config).afterAll early)
    rw [afterAll_append, afterAll_cons, afterAll_nil, hvm]
    exact Memory.holdsGlyphs_store (by decide) program

/-- It keeps them until a step writes one of their bytes. -/
theorem holdsGlyphs_afterAll {vm : Vm} (h : vm.machine.memory.HoldsGlyphs) {ops : List Operation}
    (hops : ∀ op ∈ ops, ¬ op.Installs)
    (hsteps : ∀ s ∈ vm.steps ops, ∀ a : Fin 4096, a.val < 80 → ¬ s.Writes a) :
    (vm.afterAll ops).machine.memory.HoldsGlyphs := by
  rw [Memory.holdsGlyphs_iff] at h ⊢
  intro a ha
  have hpath := performAll_path hops vm
  exact (hpath.byte_eq fun s hs => hsteps s hs a ha).trans (h a ha)

/-! ### The two instructions -/

variable {vm : Vm}

/-- `I` is pointed at the glyph of a digit that a register holds, and nothing else changes. -/
theorem does_loadGlyph {x : Reg} {d : Fin 16} (hd : (vm.machine.reg x).toNat = d) :
    ∃ index : UInt16, index.toNat = Font.height * d ∧
      vm.Does (.single .loadGlyph x) .ok { vm with machine := { vm.machine with index } } := by
  obtain ⟨index, hi⟩ := Act.exists_glyph vm.machine x
  refine ⟨index, ?_, .of_run fun _ => Act.run_execLoadGlyph hi⟩
  rw [hi, hd, Nat.zero_add, Nat.mul_comm]

/-- Five rows are drawn from where `I` points. -/
theorem draws_glyph (h : vm.machine.memory.HoldsGlyphs) {d : Fin 16}
    (hi : vm.machine.index.toNat = Font.height * d) (a b : Reg) :
    ∃ after, vm.Draws (.draw a b 5) (vm.machine.reg a) (vm.machine.reg b) (Font.glyph d) after := by
  have hd := d.isLt
  have hfits : vm.machine.index.toNat + (5 : Nibble) ≤ Memory.size := by
    have hfive : ((5 : Nibble) : Nat) = 5 := rfl
    simp only [Font.height, Memory.size] at hi ⊢
    omega
  rw [← h.block_eq d hi rfl hfits]
  exact ⟨_, draws_block hfits⟩

theorem run_pair {r r' : UInt8} {n n' : Notice} (h : (vm.cycle r).result = .ok n)
    (h' : ((vm.cycle r).vm.cycle r').result = .ok n') :
    (vm.run [r, r']).result = .ok n' ∧ (vm.run [r, r']).vm = ((vm.cycle r).vm.cycle r').vm := by
  rw [run, runFrom_cons_of_ok h, runFrom_singleton]
  exact ⟨h', rfl⟩

/-- Let no word of a history have stored anything below the eightieth byte since the machine was
built or a program was installed.  Then pointing `I` at the digit that a register holds and drawing
five rows draws the glyph of that digit at the place held by any two registers, whatever happens in
between to other parts than registers, `I` and memory.  In particular two cycles that find these
instructions switch over the pixels under the glyph and no others. -/
theorem glyph_drawn (config : Config) {front late : List Operation}
    (hfront : front = [] ∨ ∃ op, front.getLast? = some op ∧ op.Installs)
    (hlate : ∀ op ∈ late, ¬ op.Installs)
    (hfont : ∀ s ∈ ((new config).afterAll front).steps late,
      ∀ a : Fin 4096, a.val < 80 → ¬ s.Writes a)
    (x a b : Reg) (d : Fin 16)
    (hd : (((new config).afterAll (front ++ late)).machine.reg x).toNat = d) :
    let vm := (new config).afterAll (front ++ late)
    let column := vm.machine.reg a
    let row := vm.machine.reg b
    (∃ pointed, vm.Does (.single .loadGlyph x) .ok pointed ∧
      pointed = { vm with machine := { vm.machine with index := pointed.machine.index } } ∧
      ∀ later : Vm, later.machine.regs = pointed.machine.regs →
        later.machine.index = pointed.machine.index →
        later.machine.memory = pointed.machine.memory →
        ∃ after, later.Draws (.draw a b 5) column row (Font.glyph d) after) ∧
    ∀ r r', vm.machine.next = .ok (.single .loadGlyph x) →
      (vm.cycle r).vm.machine.next = .ok (.draw a b 5) →
      (vm.run [r, r']).result = .ok .draw ∧
        ∀ px py, px < Screen.width → py < Screen.height →
          ∃ old, vm.machine.screen.pixel px py = .ok old ∧
            (vm.run [r, r']).vm.machine.screen.pixel px py =
              .ok (old ^^ decide (Screen.Covers column row (Font.glyph d) px py)) := by
  intro vm column row
  have hglyphs : vm.machine.memory.HoldsGlyphs := by
    have hkept := holdsGlyphs_afterAll (holdsGlyphs_of_fresh config hfront) hlate hfont
    rw [← afterAll_append] at hkept
    exact hkept
  obtain ⟨index, hindex, hdoes⟩ := does_loadGlyph hd
  have hdraws : ∀ later : Vm, later.machine.regs = vm.machine.regs → later.machine.index = index →
      later.machine.memory = vm.machine.memory →
      ∃ after, later.Draws (.draw a b 5) column row (Font.glyph d) after := by
    intro later hregs hi hmemory
    have hcolumn : later.machine.reg a = column := by rw [Machine.reg, hregs]; rfl
    have hrow : later.machine.reg b = row := by rw [Machine.reg, hregs]; rfl
    rw [← hcolumn, ← hrow]
    exact draws_glyph (hmemory ▸ hglyphs) (hi ▸ hindex) a b
  refine ⟨⟨_, hdoes, rfl, hdraws⟩, fun r r' hnext hnext' => ?_⟩
  have hfirst := hdoes.cycle_eq r hnext
  have hok : (vm.cycle r).result = .ok .ok := by rw [hfirst]
  obtain ⟨after, hafter⟩ := hdraws (vm.cycle r).vm (by rw [hfirst]) (by rw [hfirst]) (by rw [hfirst])
  have hscreen : (vm.cycle r).vm.machine.screen = vm.machine.screen := by rw [hfirst]
  have hsecond := hafter.does.cycle_eq r' hnext'
  obtain ⟨hresult, hvm⟩ := run_pair hok (by rw [hsecond])
  refine ⟨hresult, fun px py hx hy => ?_⟩
  rw [hvm, hsecond, ← hscreen]
  exact hafter.pixels px py hx hy

/-- A program that sets `V0` to eight and draws its glyph into the corner: the right end of the third
row is on, and between the ends of the second row nothing is. -/
theorem glyph_drawn_eight :
    let vm := (new {}).afterAll [.load [0x60, 0x08, 0xF0, 0x29, 0xD1, 0x25], .cycle 0]
    let drawn := (vm.run [0, 0]).vm.machine.screen
    (vm.run [0, 0]).result = .ok .draw ∧ drawn.pixel 3 2 = .ok true ∧ drawn.pixel 1 1 = .ok false := by
  generalize hmade :
    (new {}).afterAll [.load [0x60, 0x08, 0xF0, 0x29, 0xD1, 0x25], .cycle 0] = vm
  show (vm.run [0, 0]).result = _ ∧ (vm.run [0, 0]).vm.machine.screen.pixel 3 2 = _ ∧
    (vm.run [0, 0]).vm.machine.screen.pixel 1 1 = _
  let start := (new {}).installed [0x60, 0x08, 0xF0, 0x29, 0xD1, 0x25]
  have hinstalls : (Operation.load [0x60, 0x08, 0xF0, 0x29, 0xD1, 0x25]).Installs := by
    show _ ≤ Machine.programLimit
    decide
  have hword : start.machine.word? = some 0x6008 :=
    word?_installed (new {}) 0x60 0x08 [0xF0, 0x29, 0xD1, 0x25]
  have hsets : start.Does (.byte .load 0 8) .ok
      { start with machine := start.machine.setReg 0 8 } := .of_run fun _ => rfl
  have hcycle := hsets.cycle_eq 0 (Machine.next_of_decode? hword (by decide))
  have hvm : vm = { start with
      machine := { start.machine.setReg 0 8 with pc := start.machine.pc + 2 } } := by
    rw [← hmade, afterAll_load_cycle hinstalls, hcycle]
  have hlate : ∀ op ∈ [Operation.cycle 0], ¬ op.Installs := by
    intro op hop
    rw [List.mem_singleton.mp hop]
    exact not_false
  have hfont : ∀ s ∈ ((new {}).afterAll [.load [0x60, 0x08, 0xF0, 0x29, 0xD1, 0x25]]).steps
      [.cycle 0], ∀ a : Fin 4096, a.val < 80 → ¬ s.Writes a := by
    rw [afterAll_cons, perform_load_of_fits hinstalls, afterAll_nil, steps, steps, List.append_nil,
      stepsOf_cycle_of_ok (by rw [hcycle])]
    intro s hs a _
    rw [List.mem_singleton.mp hs]
    exact Step.not_writes hword (by decide) (by decide) a
  have hpc : vm.machine.pc = Machine.programStart + 2 := by
    rw [hvm, ← pc_installed (new {}) [0x60, 0x08, 0xF0, 0x29, 0xD1, 0x25]]
  have hmemory : vm.machine.memory = start.machine.memory := by rw [hvm]; rfl
  have hscreen : vm.machine.screen = Screen.blank := by rw [hvm]; rfl
  have hreg : ∀ r, vm.machine.reg r = if 0 = r then 8 else start.machine.reg r := by
    rw [hvm]
    exact start.machine.reg_setReg 0 (v := 8)
  have hpoint : vm.machine.next = .ok (.single .loadGlyph 0) :=
    Machine.next_of_decode? (word?_of_program (hmemory.trans (memory_installed _ _)) hpc (by decide)
      rfl rfl) (by decide)
  have hglyph := glyph_drawn {} (.inr ⟨_, rfl, hinstalls⟩) hlate hfont 0 1 2 8
  rw [List.singleton_append, hmade] at hglyph
  obtain ⟨⟨pointed, hdoes, hpointed, -⟩, hrun⟩ := hglyph (by rw [hreg, if_pos rfl]; rfl)
  have hthen := hdoes.cycle_eq 0 hpoint
  have hprogram : (vm.cycle 0).vm.machine.memory = start.machine.memory := by
    rw [hthen, ← hmemory, hpointed]
  have hafter : (vm.cycle 0).vm.machine.pc = Machine.programStart + 4 := by
    rw [hthen, hpc]
  have hdraw : (vm.cycle 0).vm.machine.next = .ok (.draw 1 2 5) :=
    Machine.next_of_decode? (word?_of_program (hprogram.trans (memory_installed _ _)) hafter
      (by decide) rfl rfl) (by decide)
  obtain ⟨hresult, hpixels⟩ := hrun 0 0 hpoint hdraw
  have hlit : ∀ px py, px < Screen.width → py < Screen.height →
      (vm.run [0, 0]).vm.machine.screen.pixel px py =
        .ok (decide (Screen.Covers 0 0 (Font.glyph 8) px py)) := by
    intro px py hx hy
    obtain ⟨old, hold, hnew⟩ := hpixels px py hx hy
    rw [hscreen, Screen.pixel_blank hx hy, Except.ok.injEq] at hold
    rw [hnew, ← hold, hreg, hreg, Bool.false_xor]
    rfl
  refine ⟨hresult, ?_, ?_⟩
  · rw [hlit 3 2 (by decide) (by decide)]
    decide
  · rw [hlit 1 1 (by decide) (by decide)]
    decide

end Vm

end ChipEight
