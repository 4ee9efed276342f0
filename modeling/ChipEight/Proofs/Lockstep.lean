import ChipEight.Proofs.Abreast
import ChipEight.Proofs.FaultTable
import ChipEight.Proofs.Steps

/-!
# ChipEight.Proofs.Lockstep — two histories side by side

What holds of one instruction holds of whatever the host does: cycles, runs and all other operations
answer the same on machines that a program cannot tell apart, and leave such machines behind.  Main
statement: so do whole histories, if the machines are timed or nothing reads the delay timer
(`performAll_alike`).
-/

namespace ChipEight

/-- Both have the same result and leave machines that a program cannot tell apart. -/
structure Outcome.Alike (timed clocked : Prop) (o o' : Outcome α) : Prop where
  result_eq : o'.result = o.result
  vm : o.vm.Alike timed clocked o'.vm
  signals_eq : timed → o'.signals = o.signals
  log_eq : clocked → o'.log = o.log

/-- The word at the program counter reads the delay timer. -/
def Machine.ReadsDelay (m : Machine) : Prop := ∃ w, m.word? = some w ∧ Word.Fits w "Fx07"

namespace Outcome.Alike

variable {timed clocked : Prop}

theorem map {o o' : Outcome α} (h : o.Alike timed clocked o') (f : α → β) :
    (o.map f).Alike timed clocked (o'.map f) where
  result_eq := congrArg f h.result_eq
  vm := h.vm
  signals_eq := h.signals_eq
  log_eq := h.log_eq

/-- The same for an operation that always answers that it is done. -/
theorem done {o o' : Outcome Unit} (h : o.Alike timed clocked o') :
    (o.map fun _ => (.ok .done : Except Failure Answer)).Alike timed clocked
      (o'.map fun _ => .ok .done) :=
  h.map _

/-- One outcome after the other. -/
theorem behind {o o' : Outcome α} {p p' : Outcome β} (h : o.Alike timed clocked o')
    (hp : p.Alike timed clocked p') :
    (o.behind p.signals p.log).Alike timed clocked (o'.behind p'.signals p'.log) where
  result_eq := h.result_eq
  vm := h.vm
  signals_eq t := by
    show p'.signals ++ o'.signals = p.signals ++ o.signals
    rw [hp.signals_eq t, h.signals_eq t]
  log_eq c := by
    show p'.log ++ o'.log = p.log ++ o.log
    rw [hp.log_eq c, h.log_eq c]

end Outcome.Alike

namespace Machine

variable {m : Machine} {i : Instr}

theorem Alike.sameProgram {timed : Prop} {m' : Machine} (h : m.Alike timed m') :
    m.SameProgram m' := by
  obtain ⟨delay, sound, rfl, -⟩ := h
  exact ⟨rfl, rfl, rfl, rfl, rfl, rfl⟩

theorem Alike.eq_of_timed {timed : Prop} {m' : Machine} (h : m.Alike timed m') (t : timed) :
    m' = m := by
  obtain ⟨delay, sound, rfl, ht⟩ := h
  obtain ⟨rfl, rfl⟩ := ht t
  rfl

theorem Alike.keypad_eq {timed : Prop} {m' : Machine} (h : m.Alike timed m') :
    m'.keypad = m.keypad := by
  obtain ⟨delay, sound, rfl, -⟩ := h
  rfl

theorem readsDelay_of_next {x : Reg} (h : m.next = .ok (.single .readDelay x)) :
    m.ReadsDelay := by
  obtain ⟨w, hw, hd⟩ := exists_word?_of_next h
  have hf := Instr.fits_encode (.single .readDelay x)
  rw [Instr.encode_of_decode? hd] at hf
  exact ⟨w, hw, hf⟩

/-- Reading the delay timer never fails. -/
theorem ReadsDelay.fault?_eq_none (h : m.ReadsDelay) : m.fault? = none := by
  obtain ⟨w, hw, hf⟩ := h
  exact fault?_of_decode? hw (Instr.decode?_of_fits (i := .single .readDelay 0) hf rfl)

end Machine

namespace Vm

variable {timed clocked : Prop} {vm vm' : Vm}

/-! ### Cycles and runs -/

theorem fail_alike (h : vm.Alike timed clocked vm') (f : Failure) :
    (vm.fail f : Outcome (Except Failure α)).Alike timed clocked (vm'.fail f) := by
  cases f with
  | fault f => exact ⟨rfl, h, fun _ => rfl, fun _ => rfl⟩
  | breach b => exact ⟨rfl, h, fun _ => rfl, fun _ => rfl⟩

theorem Alike.next_eq (h : vm.Alike timed clocked vm') : vm'.machine.next = vm.machine.next := by
  obtain ⟨delay, sound, he, -⟩ := h.machine
  rw [he]
  rfl

theorem cycle_alike (h : vm.Alike timed clocked vm') (hr : vm.machine.ReadsDelay → timed)
    (random : UInt8) : (vm.cycle random).Alike timed clocked (vm'.cycle random) := by
  rw [cycle, cycle, h.next_eq]
  cases hn : vm.machine.next with
  | error f => exact fail_alike h f
  | ok i =>
    have hi : ∀ x, i = .single .readDelay x → timed := by
      rintro x rfl
      exact hr (Machine.readsDelay_of_next hn)
    have ha := Act.Abreast.execute random hi vm vm' h
    rw [h.machine.sameProgram.pc_eq]
    dsimp only
    generalize (Act.execute random i).run vm = r at ha ⊢
    generalize (Act.execute random i).run vm' = r' at ha ⊢
    cases ha with
    | ok hn hv =>
      cases hn
      exact ⟨rfl, hv, fun _ => rfl, fun _ => rfl⟩
    | @error f after after' hv =>
      have hf := fail_alike (α := Notice) hv f
      show Outcome.Alike _ _ ((after.fail f).behind [] _) ((after'.fail f).behind [] _)
      exact ⟨hf.result_eq, hf.vm, hf.signals_eq, fun c => congrArg (_ :: ·) (hf.log_eq c)⟩

theorem mem_runSteps_of_readsDelay (h : vm.machine.ReadsDelay) (r : UInt8) (rs : List UInt8) :
    ⟨vm.machine, (vm.cycle r).vm.machine⟩ ∈ vm.runSteps (r :: rs) := by
  cases hc : (vm.cycle r).result with
  | ok n =>
    rw [runSteps, hc]
    exact List.mem_cons_self
  | error e =>
    obtain ⟨f, -, hf⟩ := cycle_result_eq_error_iff.mp hc
    rw [h.fault?_eq_none] at hf
    cases hf

theorem runFrom_alike (h : vm.Alike timed clocked vm') (notice : Notice) {randoms : List UInt8}
    (hr : ∀ s ∈ vm.runSteps randoms, s.before.ReadsDelay → timed) :
    (runFrom notice randoms vm).Alike timed clocked (runFrom notice randoms vm') := by
  induction randoms generalizing vm vm' notice with
  | nil => exact ⟨rfl, h, fun _ => rfl, fun _ => rfl⟩
  | cons r rs ih =>
    have hc := cycle_alike h (fun hd => hr _ (mem_runSteps_of_readsDelay hd r rs) hd) r
    cases hres : (vm.cycle r).result with
    | ok n =>
      rw [runFrom_cons_of_ok hres, runFrom_cons_of_ok (hc.result_eq.trans hres)]
      have hrest : ∀ s ∈ (vm.cycle r).vm.runSteps rs, s.before.ReadsDelay → timed := by
        intro s hs
        refine hr s ?_
        rw [runSteps, hres]
        exact List.mem_cons_of_mem _ hs
      exact (ih hc.vm n hrest).behind hc
    | error e =>
      rw [runFrom_cons_of_error hres, runFrom_cons_of_error (hc.result_eq.trans hres)]
      exact hc

/-! ### The other operations -/

theorem load_alike (h : vm.Alike timed clocked vm') (program : List UInt8) :
    (vm.load program).Alike timed clocked (vm'.load program) := by
  by_cases hl : program.length ≤ Machine.programLimit
  · rw [load_of_fits hl, load_of_fits hl]
    exact ⟨rfl, ⟨.refl _, fun _ => rfl, fun _ => rfl⟩, fun _ => rfl, fun _ => rfl⟩
  · rw [load, load, if_neg hl, if_neg hl]
    exact fail_alike h _

theorem tick_alike (h : vm.Alike timed clocked vm') : vm.tick.Alike timed clocked vm'.tick := by
  obtain ⟨delay, sound, he, ht⟩ := h.machine
  refine ⟨rfl, ⟨?_, fun _ => rfl, h.state_eq⟩, fun t => ?_, fun _ => rfl⟩
  · show vm.machine.tick.Alike timed vm'.machine.tick
    rw [he]
    refine ⟨_, _, rfl, fun t => ?_⟩
    obtain ⟨rfl, rfl⟩ := ht t
    exact ⟨rfl, rfl⟩
  · obtain ⟨rfl, rfl⟩ := ht t
    simp only [tick, he, h.redraw_eq t]

/-- A change of run state that looks at the run state alone. -/
theorem switch_alike (h : vm.Alike timed clocked vm') (f : RunState → RunState)
    (log : RunState → Nat → List Record) :
    (⟨{ vm with state := f vm.state }, (), [], log vm.state vm.machine.pc⟩ : Outcome Unit).Alike
      timed clocked
      ⟨{ vm' with state := f vm'.state }, (), [], log vm'.state vm'.machine.pc⟩ := by
  refine ⟨rfl, ⟨h.machine, h.redraw_eq, fun c => congrArg f (h.state_eq c)⟩, fun _ => rfl, ?_⟩
  intro c
  show log vm'.state vm'.machine.pc = log vm.state vm.machine.pc
  rw [h.state_eq c, h.machine.sameProgram.pc_eq]

theorem resume_alike (h : vm.Alike timed clocked vm') :
    vm.resume.Alike timed clocked vm'.resume := by
  rw [resume_eq, resume_eq]
  exact switch_alike h .started fun s pc => if s.isPlaying then [] else [.resumed pc]

theorem suspend_alike (h : vm.Alike timed clocked vm') :
    vm.suspend.Alike timed clocked vm'.suspend := by
  rw [suspend_eq, suspend_eq]
  exact switch_alike h (fun _ => .idle) fun s pc => if s.isPlaying then [.suspended pc] else []

theorem press_alike (h : vm.Alike timed clocked vm') (f : Keypad → Keypad) (log : List Record) :
    (⟨{ vm with machine := { vm.machine with keypad := f vm.machine.keypad } }, (), [], log⟩ :
        Outcome Unit).Alike timed clocked
      ⟨{ vm' with machine := { vm'.machine with keypad := f vm'.machine.keypad } }, (), [], log⟩ := by
  obtain ⟨delay, sound, he, ht⟩ := h.machine
  refine ⟨rfl, ⟨⟨delay, sound, ?_, ht⟩, h.redraw_eq, h.state_eq⟩, fun _ => rfl, fun _ => rfl⟩
  dsimp only
  rw [he]

/-- The same answer without a change. -/
theorem unchanged_alike (h : vm.Alike timed clocked vm') {r r' : α} (hr : r' = r) :
    (⟨vm, r, [], []⟩ : Outcome α).Alike timed clocked ⟨vm', r', [], []⟩ :=
  ⟨hr, h, fun _ => rfl, fun _ => rfl⟩

/-! ### Histories -/

/-- Any operation does the same on machines that a program cannot tell apart.  Only reading the
delay timer asks for the same timers. -/
theorem perform_alike (h : vm.Alike timed clocked vm') {op : Operation}
    (hr : ∀ s ∈ vm.stepsOf op, s.before.ReadsDelay → timed) :
    (vm.perform op).Alike timed clocked (vm'.perform op) := by
  cases op with
  | load program => exact (load_alike h program).map _
  | cycle random =>
    exact (cycle_alike h (fun hd => hr _ (mem_runSteps_of_readsDelay hd random []) hd) random).map _
  | run randoms => exact (runFrom_alike h .ok hr).map _
  | tick => exact (tick_alike h).done
  | keyDown k => exact (press_alike h (·.press k) [.keyDown k]).done
  | keyUp k => exact (press_alike h (·.release k) [.keyUp k]).done
  | resume => exact (resume_alike h).done
  | suspend => exact (suspend_alike h).done
  | listing count =>
    refine unchanged_alike h ?_
    rw [listing, listing, h.machine.sameProgram.memory_eq]
  | keys =>
    refine unchanged_alike h ?_
    rw [h.machine.keypad_eq]
  | screen =>
    refine unchanged_alike h ?_
    rw [h.machine.sameProgram.screen_eq]

/-- So does any history. -/
theorem performAll_alike (h : vm.Alike timed clocked vm') {ops : List Operation}
    (hr : ∀ s ∈ vm.steps ops, s.before.ReadsDelay → timed) :
    (vm.performAll ops).Alike timed clocked (vm'.performAll ops) := by
  induction ops generalizing vm vm' with
  | nil => exact ⟨rfl, h, fun _ => rfl, fun _ => rfl⟩
  | cons op ops ih =>
    rw [steps, List.forall_mem_append] at hr
    have ho := perform_alike h hr.1
    have hrest := ih ho.vm hr.2
    rw [performAll_cons, performAll_cons, ho.result_eq]
    exact (hrest.map _).behind ho

end Vm

end ChipEight
