import ChipEight.Proofs.Frame
import ChipEight.Proofs.Glyphs

/-!
# ChipEight.Proofs.Display — the screen and the host's copy of it

The host shows a copy of the screen and renews it when it is told to.  `Vm.Pictured` says what any
part of a history but a tick does to the screen: nothing, or something that is noted for the next
tick.  Main statement: the copy is behind the screen only as long as a change is noted, only ticks
tell the host, once for each note, and the note stands for an install or a word that draws since the
last tick (`host_copy_current`).
-/

namespace ChipEight

/-- The word at the program counter clears the screen or draws on it. -/
def Machine.Draws (m : Machine) : Prop := ∃ w, m.word? = some w ∧ Word.FitsOne w ["00E0", "Dxyn"]

theorem Machine.draws_iff {m : Machine} {w : UInt16} (hw : m.word? = some w) :
    m.Draws ↔ Word.FitsOne w ["00E0", "Dxyn"] := by
  simp [Draws, hw]

namespace Vm

/-- The host's copy of the screen after an operation: a redraw signal renews it. -/
def shownAfter (op : Operation) (vm : Vm) (shown : Screen) : Screen :=
  if .redraw ∈ (vm.perform op).signals then (vm.perform op).vm.machine.screen else shown

/-- The host's copy of the screen after a history. -/
def shown : List Operation → Vm → Screen → Screen
  | [], _, copy => copy
  | op :: ops, vm, copy => shown ops (vm.perform op).vm (vm.shownAfter op copy)

/-- Something was `drawn`, and it is noted that the screen has to be shown again, or nothing was,
and both screen and note are as they were. -/
inductive Pictured (drawn : Prop) (vm after : Vm) : Prop
  | drawn (h : drawn) (hr : after.redraw = true)
  | same (h : ¬ drawn) (hs : after.machine.screen = vm.machine.screen)
      (hr : after.redraw = vm.redraw)

namespace Pictured

variable {drawn drawn' : Prop} {vm middle after : Vm}

theorem trans (h : Pictured drawn vm middle) (h' : Pictured drawn' middle after) :
    Pictured (drawn ∨ drawn') vm after := by
  rcases h' with ⟨hd', hr'⟩ | ⟨hd', hs', hr'⟩
  · exact .drawn (.inr hd') hr'
  · rcases h with ⟨hd, hr⟩ | ⟨hd, hs, hr⟩
    · exact .drawn (.inl hd) (hr'.trans hr)
    · exact .same (not_or.mpr ⟨hd, hd'⟩) (hs'.trans hs) (hr'.trans hr)

theorem redraw_iff (h : Pictured drawn vm after) :
    after.redraw = true ↔ vm.redraw = true ∨ drawn := by
  rcases h with ⟨hd, hr⟩ | ⟨hd, hs, hr⟩
  · simp [hd, hr]
  · simp [hd, hr]

/-- If no change is noted in the end, none was before, and the screen is still the same. -/
theorem screen_eq (h : Pictured drawn vm after) (hr : after.redraw = false) :
    vm.redraw = false ∧ after.machine.screen = vm.machine.screen := by
  rcases h with ⟨-, hd⟩ | ⟨-, hs, hn⟩
  · rw [hd] at hr
    cases hr
  · exact ⟨hn.symm.trans hr, hs⟩

end Pictured

variable {vm : Vm}

/-! ### What is drawn -/

/-- To clear the screen or to draw on it is noted. -/
theorem run_exec_redraw {i : Instr} {e : Effect} {after : Vm} {random : UInt8} {w : UInt16}
    (hd : Instr.decode? w = some i) (ho : vm.machine.obstacle? i = none)
    (hrun : (Act.exec random i).run vm = .ok e after) (hw : Word.FitsOne w ["00E0", "Dxyn"]) :
    after.redraw = true := by
  obtain ⟨form, hmem, hfit⟩ := hw
  simp only [List.mem_cons, List.not_mem_nil, or_false] at hmem
  rcases hmem with rfl | rfl
  · obtain rfl := Instr.eq_withOperands_of_fits hd .clear hfit rfl
    cases hrun
    rfl
  · obtain rfl := Instr.eq_withOperands_of_fits hd (.draw 0 0 0) hfit rfl
    have hwindow := Act.contains_of_clear (k := Word.n w) ho rfl
    have hdraw := Act.run_execDraw (x := Word.x w) (y := Word.y w) hwindow
    cases hrun.symm.trans hdraw
    rfl

/-- A cycle draws when its word does. -/
theorem cycle_pictured {random : UInt8} {notice : Notice}
    (h : (vm.cycle random).result = .ok notice) :
    vm.Pictured vm.machine.Draws (vm.cycle random).vm := by
  obtain ⟨w, i, e, after, target, hw, hd, ho, hrun, hx, -, hc⟩ :=
    cycle_executed (fault?_eq_none_of_ok h) random
  rw [hc]
  by_cases hdraws : Word.FitsOne w ["00E0", "Dxyn"]
  · have hnoted : after.redraw = true := run_exec_redraw hd ho hrun hdraws
    exact .drawn ((Machine.draws_iff hw).mpr hdraws) hnoted
  · have hnot : ¬ vm.machine.Draws := fun h => hdraws ((Machine.draws_iff hw).mp h)
    have hkeeps : vm.Keeps (vm.machine.Touches w) after := by
      rw [← Instr.encode_of_decode? hd]
      exact hx.keeps
    have hscreen : after.machine.screen = vm.machine.screen := by
      refine Screen.ext fun c => hkeeps (.pixel c) fun ht => ?_
      cases ht with
      | pixel hfit => exact hdraws hfit
    have hredraw : after.redraw = vm.redraw := by
      refine hkeeps .redraw fun ht => ?_
      cases ht with
      | redraw hfit => exact hdraws hfit
    exact .same hnot hscreen hredraw

/-- A run draws when one of its steps does. -/
theorem runFrom_pictured (notice : Notice) (randoms : List UInt8) (vm : Vm) :
    vm.Pictured (∃ s ∈ vm.runSteps randoms, s.before.Draws) (runFrom notice randoms vm).vm := by
  induction randoms generalizing vm notice with
  | nil => exact .same (by simp [runSteps]) rfl rfl
  | cons r rs ih =>
    cases hc : (vm.cycle r).result with
    | ok n =>
      rw [runFrom_cons_of_ok hc, runSteps, hc]
      simp only [List.exists_mem_cons_iff]
      exact (cycle_pictured hc).trans (ih n _)
    | error e =>
      obtain ⟨f, -, hf⟩ := cycle_result_eq_error_iff.mp hc
      rw [runFrom_cons_of_error hc, runSteps, hc, (cycle_of_fault hf r).vm_eq]
      exact .same (by simp) rfl rfl

theorem perform_pictured {op : Operation} (hop : op ≠ .tick) (vm : Vm) :
    vm.Pictured (op.Installs ∨ ∃ s ∈ vm.stepsOf op, s.before.Draws) (vm.perform op).vm := by
  have hnone : ¬ (False ∨ ∃ s ∈ ([] : List Step), s.before.Draws) := by simp
  cases op with
  | tick => exact absurd rfl hop
  | load program =>
    by_cases h : (Operation.load program).Installs
    · rw [perform_load_of_fits h]
      exact .drawn (.inl h) rfl
    · have hx : ¬ (Operation.load program).Executes := not_false
      rw [perform_aside hx h]
      exact .same (fun hdrawn => hnone (hdrawn.imp_left h)) rfl rfl
  | cycle r =>
    have hp := runFrom_pictured .ok [r] vm
    rw [runFrom_singleton] at hp
    show vm.Pictured (False ∨ ∃ s ∈ vm.runSteps [r], s.before.Draws) (vm.cycle r).vm
    rwa [false_or]
  | run rs =>
    show vm.Pictured (False ∨ ∃ s ∈ vm.runSteps rs, s.before.Draws) (runFrom .ok rs vm).vm
    rw [false_or]
    exact runFrom_pictured .ok rs vm
  | _ =>
    rw [perform_aside]
    · exact .same hnone rfl rfl
    · exact not_false
    · exact not_false

/-- Between two ticks. -/
theorem afterAll_pictured {ops : List Operation} (hops : .tick ∉ ops) (vm : Vm) :
    vm.Pictured ((∃ op ∈ ops, op.Installs) ∨ ∃ s ∈ vm.steps ops, s.before.Draws)
      (vm.afterAll ops) := by
  induction ops generalizing vm with
  | nil => exact .same (by simp [steps]) rfl rfl
  | cons op ops ih =>
    rw [List.mem_cons, not_or] at hops
    have hfirst := perform_pictured (Ne.symm hops.1) vm
    have hrest := ih hops.2 (vm.perform op).vm
    have hall := hfirst.trans hrest
    -- installs with installs, steps with steps
    rw [or_or_or_comm] at hall
    simpa only [List.exists_mem_cons_iff, steps, List.mem_append, or_and_right, exists_or,
      afterAll_cons] using hall

/-! ### What the host is told -/

theorem runFrom_signals (notice : Notice) (randoms : List UInt8) (vm : Vm) :
    ∀ s ∈ (runFrom notice randoms vm).signals, ∃ f, s = .error f := by
  induction randoms generalizing vm notice with
  | nil => exact nofun
  | cons r rs ih =>
    have hcycle := (cycle_quiet vm r).2
    cases hc : (vm.cycle r).result with
    | ok n =>
      rw [runFrom_cons_of_ok hc]
      intro s hs
      rcases List.mem_append.mp hs with hs | hs
      · exact hcycle s hs
      · exact ih n _ s hs
    | error e =>
      rw [runFrom_cons_of_error hc]
      exact hcycle

/-- All but ticks tell the host of faults only. -/
theorem perform_signals {op : Operation} (hop : op ≠ .tick) (vm : Vm) :
    ∀ s ∈ (vm.perform op).signals, ∃ f, s = .error f := by
  cases op with
  | tick => exact absurd rfl hop
  | load program =>
    show ∀ s ∈ (vm.load program).signals, _
    by_cases h : program.length ≤ Machine.programLimit
    · rw [load_of_fits h]
      exact nofun
    · rw [(load_of_too_large (Nat.lt_of_not_le h) vm).signals_eq, List.forall_mem_singleton]
      exact ⟨_, rfl⟩
  | cycle r =>
    have hs := runFrom_signals .ok [r] vm
    rw [runFrom_singleton] at hs
    exact hs
  | run rs => exact runFrom_signals .ok rs vm
  | resume =>
    show ∀ s ∈ vm.resume.signals, _
    rw [resume_eq]
    exact nofun
  | suspend =>
    show ∀ s ∈ vm.suspend.signals, _
    rw [suspend_eq]
    exact nofun
  | keyDown k | keyUp k | listing count | keys | screen => exact nofun

theorem redraw_not_mem_signals {op : Operation} (hop : op ≠ .tick) (vm : Vm) :
    .redraw ∉ (vm.perform op).signals := by
  intro h
  obtain ⟨f, hf⟩ := perform_signals hop vm _ h
  cases hf

theorem count_redraw_tick (vm : Vm) :
    (vm.perform .tick).signals.count .redraw = if vm.redraw then 1 else 0 := by
  show ((if vm.machine.sound = 0 then [] else [.beep]) ++
    (if vm.redraw then [.redraw] else []) : List Signal).count .redraw = _
  by_cases hs : vm.machine.sound = 0 <;> by_cases hr : vm.redraw = true <;> simp [hs, hr]

/-- The copy stays up to date while nothing is noted. -/
theorem shownAfter_eq {copy : Screen} (h : vm.redraw = false → copy = vm.machine.screen)
    (op : Operation) (hr : (vm.perform op).vm.redraw = false) :
    vm.shownAfter op copy = (vm.perform op).vm.machine.screen := by
  by_cases hop : op = .tick
  · subst hop
    by_cases hnote : vm.redraw = true
    · have htold : .redraw ∈ (vm.perform .tick).signals := by
        rw [← List.count_pos_iff, count_redraw_tick, hnote]
        decide
      exact if_pos htold
    · have hquiet : .redraw ∉ (vm.perform .tick).signals := by
        rw [← List.count_eq_zero, count_redraw_tick, if_neg hnote]
      rw [shownAfter, if_neg hquiet]
      exact h (Bool.eq_false_iff.mpr hnote)
  · obtain ⟨hnote, hscreen⟩ := (perform_pictured hop vm).screen_eq hr
    rw [shownAfter, if_neg (redraw_not_mem_signals hop vm), hscreen]
    exact h hnote

theorem shown_eq {copy : Screen} (h : vm.redraw = false → copy = vm.machine.screen)
    (ops : List Operation) (hr : (vm.afterAll ops).redraw = false) :
    vm.shown ops copy = (vm.afterAll ops).machine.screen := by
  induction ops generalizing vm copy with
  | nil => exact h hr
  | cons op ops ih => exact ih (shownAfter_eq h op) hr

theorem shown_append (ops ops' : List Operation) (vm : Vm) (copy : Screen) :
    vm.shown (ops ++ ops') copy = (vm.afterAll ops).shown ops' (vm.shown ops copy) := by
  induction ops generalizing vm copy with
  | nil => rfl
  | cons op ops ih => exact ih _ _

/-- A host that begins with a blank copy has the screen before it whenever no change is noted.  Only
ticks tell it to renew the copy, once each if a change is noted, and then none is any more; and a
change is noted exactly if a program was installed or a word that draws was executed since the last
tick. -/
theorem host_copy_current (config : Config) (ops : List Operation) :
    let vm := (new config).afterAll ops
    (vm.redraw = false → (new config).shown ops Screen.blank = vm.machine.screen) ∧
      (∀ op, (vm.perform op).signals.count .redraw =
        if op = .tick ∧ vm.redraw = true then 1 else 0) ∧
      (vm.perform .tick).vm.redraw = false ∧
      ∀ front late, ops = front ++ late → (front = [] ∨ front.getLast? = some .tick) →
        .tick ∉ late →
        (vm.redraw = true ↔
          (∃ op ∈ late, op.Installs) ∨
            ∃ s ∈ ((new config).afterAll front).steps late, s.before.Draws) := by
  intro vm
  refine ⟨?_, ?_, rfl, ?_⟩
  · exact shown_eq (fun _ => rfl) ops
  · intro op
    by_cases hop : op = .tick
    · subst hop
      rw [count_redraw_tick]
      simp
    · rw [if_neg fun h => hop h.1]
      exact List.count_eq_zero.mpr (redraw_not_mem_signals hop vm)
  · intro front late hsplit hfront hlate
    have hquiet : ((new config).afterAll front).redraw = false := by
      rcases hfront with rfl | htick
      · rfl
      · obtain ⟨before, rfl⟩ := List.getLast?_eq_some_iff.mp htick
        rw [afterAll_append]
        rfl
    have hvm : vm = ((new config).afterAll front).afterAll late := by
      rw [← afterAll_append, ← hsplit]
    have hlast := (afterAll_pictured hlate ((new config).afterAll front)).redraw_iff
    rw [hvm, hlast, hquiet]
    simp

/-- A program that draws the glyph of zero into the corner at once: the load is told by the first
tick, and the glyph is on the screen before the second tick brings it into the copy. -/
theorem host_copy_current_drawn :
    let early : List Operation := [.load [0xD0, 0x05], .tick]
    let vm := (new {}).afterAll (early ++ [.cycle 0])
    (vm.redraw = true ∧ vm.machine.screen.pixel 0 0 = .ok true ∧
      ((new {}).shown (early ++ [.cycle 0]) Screen.blank).pixel 0 0 = .ok false) ∧
      (vm.perform .tick).signals.count .redraw = 1 ∧
      ((new {}).shown (early ++ [.cycle 0] ++ [.tick]) Screen.blank).pixel 0 0 = .ok true := by
  intro early vm
  have hmade : (new {}).afterAll (early ++ [.cycle 0]) = vm := rfl
  clear_value vm
  let ready := ((new {}).installed [0xD0, 0x05]).tick.vm
  have hready : (new {}).afterAll early = ready := by
    rw [afterAll_cons, perform_load_of_fits (by decide), afterAll_cons, afterAll_nil]
    rfl
  have hvm : vm = (ready.perform (.cycle 0)).vm := by
    rw [← hmade, afterAll_append, hready, afterAll_cons, afterAll_nil]
  have hword : ready.machine.word? = some 0xD005 := word?_installed (new {}) 0xD0 0x05 []
  have hglyphs : ready.machine.memory.HoldsGlyphs := by
    show ((new {}).installed [0xD0, 0x05]).machine.memory.HoldsGlyphs
    rw [memory_installed]
    exact Memory.holdsGlyphs_store (by decide) _
  obtain ⟨drawn, hdraws⟩ := draws_glyph hglyphs (d := 0) rfl 0 0
  have hcycle := hdraws.does.cycle_eq 0 (Machine.next_of_decode? hword (by decide))
  have hblank : ready.machine.screen.pixel 0 0 = .ok false :=
    Screen.pixel_blank (by decide) (by decide)
  have hpixel : vm.machine.screen.pixel 0 0 = .ok true := by
    obtain ⟨old, hold, hnew⟩ := hdraws.pixels 0 0 (by decide) (by decide)
    obtain rfl := Except.ok.inj (hblank.symm.trans hold)
    rw [hvm]
    show (ready.cycle 0).vm.machine.screen.pixel 0 0 = _
    rw [hcycle]
    exact hnew
  have hstep : ∃ s ∈ ready.steps [.cycle 0], s.before.Draws := by
    refine ⟨⟨ready.machine, (ready.cycle 0).vm.machine⟩, ?_, ?_⟩
    · rw [steps, stepsOf_cycle_of_ok (by rw [hcycle])]
      exact List.mem_cons_self
    · exact (Machine.draws_iff hword).mpr ⟨"Dxyn", by decide, by decide⟩
  obtain ⟨hearly, -⟩ := host_copy_current {} early
  obtain ⟨-, hcount, -, hsince⟩ := host_copy_current {} (early ++ [.cycle 0])
  obtain ⟨hlate, -⟩ := host_copy_current {} (early ++ [.cycle 0] ++ [.tick])
  rw [hmade] at hcount hsince
  have hredraw : vm.redraw = true :=
    (hsince early [.cycle 0] rfl (.inr rfl) (by decide)).mpr (.inr (hready ▸ hstep))
  have hone := hcount .tick
  rw [if_pos ⟨rfl, hredraw⟩] at hone
  refine ⟨⟨hredraw, hpixel, ?_⟩, hone, ?_⟩
  · rw [shown_append, hready, hearly (by rw [hready]; rfl), hready, shown, shown, shownAfter,
      if_neg (redraw_not_mem_signals (by decide) _)]
    exact hblank
  · have htick : (new {}).afterAll (early ++ [.cycle 0] ++ [.tick]) = vm.tick.vm := by
      rw [afterAll_append, hmade]
      rfl
    rw [hlate (by rw [htick]; rfl), htick]
    exact hpixel

end Vm

end ChipEight
