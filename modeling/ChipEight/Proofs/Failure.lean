import ChipEight.Proofs.Histories

/-!
# ChipEight.Proofs.Failure — what a failure leaves behind

A cycle or a load that fails leaves nothing behind but one signal, and a machine in a fault stays in
it until a program is loaded.  Main statements: cycles and loads happen wholly or not at all
(`cycle_and_load_all_or_nothing`), and after a failed cycle every further one fails in the same way,
whatever the host does in between short of installing a program (`failure_persists`).
-/

namespace ChipEight

/-! ### All or nothing -/

/-- The operation failed with a fault, left `before` as it was and signalled that fault and nothing
else, or it succeeded and signalled nothing. -/
def Outcome.AllOrNothing (o : Outcome (Except Failure α)) (before : Vm) : Prop :=
  match o.result with
  | .error e => o.vm = before ∧ ∃ f, e = .fault f ∧ o.signals = [.error f]
  | .ok _ => o.signals = []

theorem Outcome.Refused.allOrNothing {o : Outcome (Except Failure α)} {before : Vm} {f : Fault}
    (h : o.Refused before f) : o.AllOrNothing before := by
  rw [AllOrNothing, h.result_eq]
  exact ⟨h.vm_eq, f, rfl, h.signals_eq⟩

namespace Vm

variable {vm : Vm}

/-- Whatever the state of the machine, a cycle or a load that fails leaves all of it as it was and
signals its fault once; one that succeeds signals nothing. -/
theorem cycle_and_load_all_or_nothing (vm : Vm) (random : UInt8) (program : List UInt8) :
    (vm.cycle random).AllOrNothing vm ∧ (vm.load program).AllOrNothing vm := by
  refine ⟨?_, ?_⟩
  · cases hf : vm.machine.fault? with
    | some f => exact (cycle_of_fault hf random).allOrNothing
    | none =>
      obtain ⟨i, e, after, target, -, -, -, -, hc⟩ := cycle_of_clear hf random
      rw [hc]
      rfl
  · by_cases h : program.length ≤ Machine.programLimit
    · rw [load_of_fits h]
      rfl
    · exact (load_of_too_large (Nat.lt_of_not_le h) vm).allOrNothing

end Vm

/-! ### Failures persist -/

/-- Both machines agree on all that their program works with, except for timers and keys. -/
structure Machine.SameProgram (m m' : Machine) : Prop where
  pc_eq : m'.pc = m.pc
  regs_eq : m'.regs = m.regs
  index_eq : m'.index = m.index
  memory_eq : m'.memory = m.memory
  stack_eq : m'.stack = m.stack
  screen_eq : m'.screen = m.screen

namespace Machine.SameProgram

theorem refl (m : Machine) : m.SameProgram m := ⟨rfl, rfl, rfl, rfl, rfl, rfl⟩

theorem trans {m m' m'' : Machine} (h : m.SameProgram m') (h' : m'.SameProgram m'') :
    m.SameProgram m'' where
  pc_eq := h'.pc_eq.trans h.pc_eq
  regs_eq := h'.regs_eq.trans h.regs_eq
  index_eq := h'.index_eq.trans h.index_eq
  memory_eq := h'.memory_eq.trans h.memory_eq
  stack_eq := h'.stack_eq.trans h.stack_eq
  screen_eq := h'.screen_eq.trans h.screen_eq

theorem word?_eq {m m' : Machine} (h : m.SameProgram m') : m'.word? = m.word? := by
  simp only [word?, h.pc_eq, h.memory_eq]

/-- Timers and keys have no part in a fault. -/
theorem fault?_eq {m m' : Machine} (h : m.SameProgram m') : m'.fault? = m.fault? := by
  have ho : ∀ i, m'.obstacle? i = m.obstacle? i := by
    intro i
    simp only [obstacle?, h.stack_eq, h.index_eq]
  simp only [fault?, h.word?_eq, ho, h.pc_eq]

end Machine.SameProgram

theorem Outcome.Refused.sameProgram {o : Outcome (Except Failure α)} {before : Vm} {f : Fault}
    (h : o.Refused before f) : before.machine.SameProgram o.vm.machine := by
  rw [h.vm_eq]
  exact .refl _

namespace Operation

/-- The operation executes at least one instruction. -/
def Executes : Operation → Prop
  | .cycle _ => True
  | .run randoms => randoms ≠ []
  | _ => False

/-- The operation loads a program that fits. -/
def Installs : Operation → Prop
  | .load program => program.length ≤ Machine.programLimit
  | _ => False

end Operation

namespace Vm

variable {vm : Vm} {f : Fault}

theorem run_of_fault (h : vm.machine.fault? = some f) {randoms : List UInt8} (hr : randoms ≠ []) :
    (vm.run randoms).Refused vm f := by
  cases randoms with
  | nil => exact absurd rfl hr
  | cons r rs =>
    have hc := cycle_of_fault h r
    rw [run, runFrom_cons_of_error hc.result_eq]
    exact hc

/-- To execute instructions is to run some. -/
theorem perform_of_executes {op : Operation} (hx : op.Executes) (vm : Vm) :
    ∃ r rs, vm.perform op = vm.perform (.run (r :: rs)) := by
  cases op with
  | cycle r =>
    refine ⟨r, [], ?_⟩
    rw [perform, perform, run, runFrom_singleton]
  | run randoms =>
    obtain ⟨r, rs, rfl⟩ := List.exists_cons_of_ne_nil hx
    exact ⟨r, rs, rfl⟩
  | _ => cases hx

theorem perform_load_of_fits {program : List UInt8} (h : program.length ≤ Machine.programLimit)
    (vm : Vm) : (vm.perform (.load program)).vm = vm.installed program :=
  congrArg Outcome.vm (load_of_fits h vm)

theorem afterAll_load_cycle {program : List UInt8} (h : program.length ≤ Machine.programLimit)
    (random : UInt8) (vm : Vm) :
    vm.afterAll [.load program, .cycle random] = ((vm.installed program).cycle random).vm := by
  rw [afterAll_cons, perform_load_of_fits h, afterAll_cons, afterAll_nil]
  rfl

/-- To install a program is to load it, and it fits. -/
theorem perform_of_installs {op : Operation} (hop : op.Installs) (vm : Vm) :
    ∃ program, op = .load program ∧ (vm.perform op).vm = vm.installed program := by
  cases op with
  | load program => exact ⟨program, rfl, perform_load_of_fits hop vm⟩
  | _ => cases hop

/-- The machine after an operation that neither executes nor installs anything. -/
def aside (op : Operation) (vm : Vm) : Vm :=
  match op with
  | .tick => vm.tick.vm
  | .keyDown k => (vm.keyDown k).vm
  | .keyUp k => (vm.keyUp k).vm
  | .resume => { vm with state := vm.state.started }
  | .suspend => { vm with state := .idle }
  | _ => vm

/-- Any other operation changes timers, keypad, redraw note and run state at most. -/
theorem perform_aside {op : Operation} (hx : ¬ op.Executes) (hop : ¬ op.Installs) (vm : Vm) :
    (vm.perform op).vm = vm.aside op := by
  cases op with
  | cycle random => exact absurd trivial hx
  | load program =>
    have hl := load_of_too_large (Nat.lt_of_not_le hop) vm
    exact (hl.map fun _ => Answer.done).vm_eq
  | run randoms =>
    obtain rfl : randoms = [] := Classical.not_not.mp hx
    rfl
  | resume => exact congrArg Outcome.vm vm.resume_eq
  | suspend => exact congrArg Outcome.vm vm.suspend_eq
  | tick | keyDown k | keyUp k | listing count | keys | screen => rfl

/-- So the program stays what it was. -/
theorem perform_sameProgram {op : Operation} (hx : ¬ op.Executes) (hop : ¬ op.Installs) (vm : Vm) :
    vm.machine.SameProgram (vm.perform op).vm.machine := by
  rw [perform_aside hx hop]
  cases op <;> exact ⟨rfl, rfl, rfl, rfl, rfl, rfl⟩

/-- One operation on a machine in a fault. -/
theorem perform_of_fault (h : vm.machine.fault? = some f) {op : Operation} (hop : ¬ op.Installs) :
    (op.Executes → (vm.perform op).result = .error (.fault f)) ∧
      vm.machine.SameProgram (vm.perform op).vm.machine := by
  by_cases hx : op.Executes
  · obtain ⟨r, rs, he⟩ := perform_of_executes hx vm
    have hc := (run_of_fault h (List.cons_ne_nil r rs)).map Answer.notice
    rw [he]
    exact ⟨fun _ => hc.result_eq, hc.sameProgram⟩
  · exact ⟨fun h => absurd h hx, perform_sameProgram hx hop vm⟩

/-- Any number of operations on a machine in a fault. -/
theorem performAll_of_fault (h : vm.machine.fault? = some f) {ops : List Operation}
    (hops : ∀ op ∈ ops, ¬ op.Installs) :
    List.Forall₂ (fun op r => op.Executes → r = .error (.fault f)) ops (vm.performAll ops).result ∧
      vm.machine.SameProgram (vm.performAll ops).vm.machine := by
  -- each operation leaves the fault in place for the next one
  refine performAll_steady (I := fun now => vm.machine.SameProgram now.machine) ?_ (.refl _) hops
  intro now op hs hop
  have hf : now.machine.fault? = some f := by rw [hs.fault?_eq, h]
  obtain ⟨hr, hs'⟩ := perform_of_fault hf hop
  exact ⟨hr, hs.trans hs'⟩

/-- Once a cycle has failed, every further cycle and run fails in the same way, and the program
stands where it stood, until a program that fits is loaded. -/
theorem failure_persists {random : UInt8} {e : Failure} (h : (vm.cycle random).result = .error e)
    {ops : List Operation} (hops : ∀ op ∈ ops, ¬ op.Installs) :
    let failed := (vm.cycle random).vm
    List.Forall₂ (fun op r => op.Executes → r = .error e) ops (failed.performAll ops).result ∧
      failed.machine.SameProgram (failed.performAll ops).vm.machine := by
  obtain ⟨f, rfl, hf⟩ := cycle_result_eq_error_iff.mp h
  intro failed
  have hv : failed = vm := (cycle_of_fault hf random).vm_eq
  rw [hv]
  exact performAll_of_fault hf hops

/-- A return without a call, met at once and again after two ticks, a key, a run and a rejected
load. -/
theorem failure_persists_return :
    let failed := (((new {}).load [0x00, 0xEE]).vm.cycle 0).vm
    let ops : List Operation :=
      [.tick, .keyDown 4, .resume, .cycle 7, .load (List.replicate 3584 0), .run [1, 2]]
    List.Forall₂ (fun op r => op.Executes → r = .error (.fault .stackUnderflow)) ops
        (failed.performAll ops).result ∧
      failed.machine.SameProgram (failed.performAll ops).vm.machine := by
  refine failure_persists ?_ ?_
  · rw [load_of_fits (by decide), cycle_result_eq_error_iff]
    refine ⟨_, rfl, ?_⟩
    have hw : ((new {}).installed [0x00, 0xEE]).machine.word? = some 0x00EE := by
      simp [installed, Machine.word?, Machine.blank, Memory.getElem_store]
      decide
    rw [Machine.fault?, hw]
    rfl
  · simp only [List.forall_mem_cons, Operation.Installs, List.length_replicate]
    simp

end Vm

end ChipEight
