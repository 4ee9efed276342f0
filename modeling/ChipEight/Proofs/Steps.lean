import ChipEight.Proofs.Failure

/-!
# ChipEight.Proofs.Steps — the instructions executed in a history

`Vm.steps` lists the instructions that the operations of a history execute, failing ones left out,
each as the machine before and after it.  Main statement: short of installing a program a history
takes the machine along its steps, and between them the program stands still (`performAll_path`).
-/

namespace ChipEight

/-- An executed instruction, as the machine before and after it. -/
structure Step where
  before : Machine
  after : Machine

namespace Vm

/-- The instructions that a run executes. -/
def runSteps : List UInt8 → Vm → List Step
  | [], _ => []
  | r :: rs, vm =>
    match (vm.cycle r).result with
    | .ok _ => ⟨vm.machine, (vm.cycle r).vm.machine⟩ :: runSteps rs (vm.cycle r).vm
    | .error _ => []

/-- The instructions that an operation executes. -/
def stepsOf (op : Operation) (vm : Vm) : List Step :=
  match op with
  | .cycle r => vm.runSteps [r]
  | .run rs => vm.runSteps rs
  | _ => []

/-- The instructions that a history executes, in order. -/
def steps : List Operation → Vm → List Step
  | [], _ => []
  | op :: ops, vm => vm.stepsOf op ++ steps ops (vm.perform op).vm

end Vm

/-- Some cycle took the step. -/
def Step.Taken (s : Step) : Prop :=
  ∃ vm random notice, (Vm.cycle random vm).result = .ok notice ∧ s.before = vm.machine ∧
    s.after = (Vm.cycle random vm).vm.machine

namespace Machine

/-- The machine gets from one state to the other by these steps, and between them only timers and
keys change. -/
inductive Path : Machine → List Step → Machine → Prop
  | stay {m m' : Machine} (h : m.SameProgram m') : Path m [] m'
  | step {m m' : Machine} {s : Step} {ss : List Step} (h : m.SameProgram s.before) (hs : s.Taken)
      (hp : Path s.after ss m') : Path m (s :: ss) m'

namespace Path

variable {m m' m'' : Machine} {ss ss' : List Step} {s : Step}

theorem of_same (h : m.SameProgram m') (hp : Path m' ss m'') : Path m ss m'' := by
  cases hp with
  | stay h' => exact .stay (h.trans h')
  | step h' hs hp => exact .step (h.trans h') hs hp

theorem append (h : Path m ss m') (h' : Path m' ss' m'') : Path m (ss ++ ss') m'' := by
  induction h with
  | stay h => exact h'.of_same h
  | step h hs _ ih => exact .step h hs (ih h')

/-- A path can be cut at any of its steps. -/
theorem cut (h : Path m (ss ++ s :: ss') m') :
    Path m ss s.before ∧ s.Taken ∧ Path s.after ss' m' := by
  induction ss generalizing m with
  | nil =>
    cases h with
    | step h hs hp => exact ⟨.stay h, hs, hp⟩
  | cons s₀ ss ih =>
    cases h with
    | step h hs hp =>
      obtain ⟨hp₁, hs', hp₂⟩ := ih hp
      exact ⟨.step h hs hp₁, hs', hp₂⟩

end Path

end Machine

namespace Vm

theorem stepsOf_cycle_of_ok {vm : Vm} {r : UInt8} {n : Notice} (h : (vm.cycle r).result = .ok n) :
    vm.stepsOf (.cycle r) = [⟨vm.machine, (vm.cycle r).vm.machine⟩] := by
  rw [stepsOf, runSteps, h, runSteps]

theorem runFrom_path (notice : Notice) (randoms : List UInt8) (vm : Vm) :
    vm.machine.Path (vm.runSteps randoms) (runFrom notice randoms vm).vm.machine := by
  induction randoms generalizing vm notice with
  | nil => exact .stay (.refl _)
  | cons r rs ih =>
    cases hc : (vm.cycle r).result with
    | ok n =>
      rw [runFrom_cons_of_ok hc, runSteps, hc]
      exact .step (.refl _) ⟨vm, r, n, hc, rfl, rfl⟩ (ih n _)
    | error e =>
      obtain ⟨f, -, hf⟩ := cycle_result_eq_error_iff.mp hc
      rw [runFrom_cons_of_error hc, runSteps, hc]
      exact .stay (cycle_of_fault hf r).sameProgram

theorem perform_path {op : Operation} (hop : ¬ op.Installs) (vm : Vm) :
    vm.machine.Path (vm.stepsOf op) (vm.perform op).vm.machine := by
  cases op with
  | cycle r =>
    have hp := runFrom_path .ok [r] vm
    rw [runFrom_singleton] at hp
    exact hp
  | run rs => exact runFrom_path .ok rs vm
  | _ =>
    refine .stay (perform_sameProgram ?_ hop vm)
    exact not_false

/-- A history takes the machine along its steps. -/
theorem performAll_path {ops : List Operation} (hops : ∀ op ∈ ops, ¬ op.Installs) (vm : Vm) :
    vm.machine.Path (vm.steps ops) (vm.performAll ops).vm.machine := by
  induction ops generalizing vm with
  | nil => exact .stay (.refl _)
  | cons op ops ih =>
    rw [List.forall_mem_cons] at hops
    exact (perform_path hops.1 vm).append (ih hops.2 _)

end Vm

end ChipEight
