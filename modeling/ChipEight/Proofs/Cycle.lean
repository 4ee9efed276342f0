import ChipEight.Proofs.Execution
import ChipEight.Vm.Control

/-!
# ChipEight.Proofs.Cycle — what a cycle and a load come to

`Machine.fault?` is the fault that the next cycle meets, read off the machine before anything is
executed.  Main statements: a cycle that meets a fault is refused (`cycle_of_fault`) and any other
one executes an instruction and moves the program counter (`cycle_of_clear`); a load is refused when
the program is too large (`load_of_too_large`) and installs it otherwise (`load_of_fits`).
-/

namespace ChipEight

/-- An operation on `before` came to nothing: the state is what it was, and the host is told of the
fault once and of nothing else. -/
structure Outcome.Refused (o : Outcome (Except Failure α)) (before : Vm) (f : Fault) : Prop where
  result_eq : o.result = .error (.fault f)
  vm_eq : o.vm = before
  signals_eq : o.signals = [.error f]

theorem Outcome.Refused.map {o : Outcome (Except Failure α)} {before : Vm} {f : Fault}
    (h : o.Refused before f) (g : α → β) : (o.map fun r => r.map g).Refused before f where
  result_eq := by
    show o.result.map g = _
    rw [h.result_eq]
    rfl
  vm_eq := h.vm_eq
  signals_eq := h.signals_eq

namespace Machine

/-- The word at the program counter, high byte first, if both its bytes lie within memory. -/
def word? (m : Machine) : Option UInt16 :=
  if h : m.pc + 2 ≤ Memory.size then some (Word.join m.memory[m.pc] m.memory[m.pc + 1]) else none

/-- The fault that the next cycle meets, if it meets one. -/
def fault? (m : Machine) : Option Fault :=
  match m.word? with
  | none => some (.outOfBounds m.pc)
  | some w =>
    match Instr.decode? w with
    | none => some (.unrecognized w (UInt16.ofNat m.pc))
    | some i => m.obstacle? i

variable {m : Machine}

/-! ### Fetching and decoding -/

theorem word?_eq_none_iff : m.word? = none ↔ 4094 < m.pc := by
  simp only [word?, Memory.size, dite_eq_right_iff, reduceCtorEq, imp_false]
  omega

theorem pc_le_of_word? {w : UInt16} (h : m.word? = some w) : m.pc ≤ 4094 := by
  refine Nat.le_of_not_lt fun hlt => ?_
  rw [word?_eq_none_iff.mpr hlt] at h
  cases h

theorem fetch_of_word?_none (h : m.word? = none) : m.fetch = .error (.fault (.outOfBounds m.pc)) := by
  have hc : ¬ Memory.Contains m.pc 2 := by
    rw [word?_eq_none_iff] at h
    simp only [Memory.Contains, Memory.size]
    omega
  rw [fetch, if_neg hc]

theorem fetch_of_word? {w : UInt16} (h : m.word? = some w) : m.fetch = .ok w := by
  unfold word? at h
  split at h
  · next hc =>
    cases h
    have hc' : Memory.Contains m.pc 2 := hc
    rw [fetch, if_pos hc', Memory.readWord_of_le _ hc, Failure.ofComponent_ok]
  · cases h

theorem next_of_word?_none (h : m.word? = none) :
    m.next = .error (.fault (.outOfBounds m.pc)) := by
  simp [next, fetch_of_word?_none h, bind, Except.bind]

theorem next_of_decode?_none {w : UInt16} (hw : m.word? = some w) (hd : Instr.decode? w = none) :
    m.next = .error (.fault (.unrecognized w (UInt16.ofNat m.pc))) := by
  have hp : m.pc < 65536 := Nat.lt_of_le_of_lt (pc_le_of_word? hw) (by decide)
  simp [next, fetch_of_word? hw, hd, Checked.address16_of_lt hp, bind, Except.bind, throw,
    throwThe, MonadExceptOf.throw]

theorem next_of_decode? {w : UInt16} {i : Instr} (hw : m.word? = some w)
    (hd : Instr.decode? w = some i) : m.next = .ok i := by
  simp [next, fetch_of_word? hw, hd, bind, Except.bind, pure, Except.pure]

theorem exists_word?_of_next {i : Instr} (h : m.next = .ok i) :
    ∃ w, m.word? = some w ∧ Instr.decode? w = some i := by
  cases hw : m.word? with
  | none =>
    rw [next_of_word?_none hw] at h
    cases h
  | some w =>
    cases hd : Instr.decode? w with
    | none =>
      rw [next_of_decode?_none hw hd] at h
      cases h
    | some j =>
      rw [next_of_decode? hw hd] at h
      cases h
      exact ⟨w, rfl, hd⟩

/-- A machine in no fault has an instruction to execute, and nothing stands in its way. -/
theorem exists_of_fault?_eq_none (h : m.fault? = none) :
    ∃ w i, m.word? = some w ∧ Instr.decode? w = some i ∧ m.obstacle? i = none := by
  unfold fault? at h
  split at h
  · cases h
  · next w hw =>
    split at h
    · cases h
    · next i hd => exact ⟨w, i, hw, hd, h⟩

end Machine

/-! ### Moving on -/

theorem Route.exists_target {pc : Nat} (h : pc ≤ 4094) (r : Route) :
    ∃ target, r.target pc = .ok target := by
  have h2 : pc + 2 < 2 ^ 64 := by omega
  have h4 : pc + 4 < 2 ^ 64 := by omega
  cases r with
  | next => exact ⟨pc + 2, Checked.add_of_lt h2⟩
  | skip => exact ⟨pc + 4, Checked.add_of_lt h4⟩
  | «to» a => exact ⟨a, rfl⟩
  | stay => exact ⟨pc, rfl⟩

/-- The program counter gets four further at most, unless the program goes elsewhere. -/
theorem Route.le_of_target {pc target : Nat} {r : Route} (h : r.target pc = .ok target) :
    target ≤ pc + 4 ∨ r = .to target := by
  cases r with
  | next =>
    obtain rfl := Checked.eq_add_of_add_eq_ok h
    exact .inl (by omega)
  | skip =>
    obtain rfl := Checked.eq_add_of_add_eq_ok h
    exact .inl (by omega)
  | «to» a =>
    cases h
    exact .inr rfl
  | stay =>
    cases h
    exact .inl (by omega)

namespace Act

variable {vm : Vm} {random : UInt8} {i : Instr}

theorem run_execute_of_error {e : Failure} {after : Vm}
    (h : (exec random i).run vm = .error e after) :
    (execute random i).run vm = .error e after := by
  simp [execute, h]

theorem run_execute_of_ok {e : Effect} {after : Vm} {target : Nat}
    (h : (exec random i).run vm = .ok e after) (ht : e.route.target vm.machine.pc = .ok target) :
    (execute random i).run vm =
      .ok e.notice { after with machine := { after.machine with pc := target } } := by
  simp [execute, h, ht]

end Act

namespace Vm

variable {vm : Vm}

theorem fail_refused (vm : Vm) (f : Fault) :
    (vm.fail (.fault f) : Outcome (Except Failure α)).Refused vm f := ⟨rfl, rfl, rfl⟩

/-! ### Cycles -/

/-- A cycle that meets a fault changes nothing. -/
theorem cycle_of_fault {f : Fault} (h : vm.machine.fault? = some f) (random : UInt8) :
    (vm.cycle random).Refused vm f := by
  unfold Machine.fault? at h
  split at h
  · next hw =>
    cases h
    rw [cycle, Machine.next_of_word?_none hw]
    exact fail_refused vm _
  · next w hw =>
    split at h
    · next hd =>
      cases h
      rw [cycle, Machine.next_of_decode?_none hw hd]
      exact fail_refused vm _
    · next i hd =>
      -- here the instruction was begun, and logged, before it failed
      have hrun := Act.run_execute_of_error (Act.run_exec_of_obstacle h random)
      rw [cycle, Machine.next_of_decode? hw hd]
      simp only [hrun]
      exact ⟨rfl, rfl, rfl⟩

theorem cycle_of_run_exec {random : UInt8} {i : Instr} {e : Effect} {after : Vm} {target : Nat}
    (hn : vm.machine.next = .ok i) (hrun : (Act.exec random i).run vm = .ok e after)
    (ht : e.route.target vm.machine.pc = .ok target) :
    vm.cycle random =
      ⟨{ after with machine := { after.machine with pc := target } }, .ok e.notice, [],
        [.executing vm.machine.pc i]⟩ := by
  rw [cycle, hn]
  simp only [Act.run_execute_of_ok hrun ht]

/-- The instruction is executed with the given notice and leaves `after`, whatever the random byte,
and a cycle that finds it at the program counter goes on to the next one from there. -/
structure Does (vm : Vm) (i : Instr) (notice : Notice) (after : Vm) : Prop where
  run_exec : ∀ random, (Act.exec random i).run vm = .ok { notice } after
  cycle_eq : ∀ random, vm.machine.next = .ok i →
    vm.cycle random =
      ⟨{ after with machine := { after.machine with pc := vm.machine.pc + 2 } }, .ok notice, [],
        [.executing vm.machine.pc i]⟩

theorem Does.of_run {i : Instr} {notice : Notice} {after : Vm}
    (h : ∀ random, (Act.exec random i).run vm = .ok { notice } after) : vm.Does i notice after where
  run_exec := h
  cycle_eq random hn := by
    obtain ⟨w, hw, -⟩ := Machine.exists_word?_of_next hn
    have hpc := Machine.pc_le_of_word? hw
    have hlt : vm.machine.pc + 2 < 2 ^ 64 := by omega
    exact cycle_of_run_exec hn (h random) (Checked.add_of_lt hlt)

/-- Any other cycle executes the instruction at the program counter and moves on. -/
theorem cycle_of_clear (h : vm.machine.fault? = none) (random : UInt8) :
    ∃ i e after target,
      vm.machine.next = .ok i ∧
      (Act.exec random i).run vm = .ok e after ∧
      vm.machine.Moves e after.machine ∧
      e.route.target vm.machine.pc = .ok target ∧
      vm.cycle random =
        ⟨{ after with machine := { after.machine with pc := target } }, .ok e.notice, [],
          [.executing vm.machine.pc i]⟩ := by
  obtain ⟨w, i, hw, hd, ho⟩ := Machine.exists_of_fault?_eq_none h
  have hpc := Machine.pc_le_of_word? hw
  obtain ⟨e, after, hrun, hm⟩ := Act.run_exec_of_clear hpc ho random
  obtain ⟨target, ht⟩ := Route.exists_target hpc e.route
  have hn := Machine.next_of_decode? hw hd
  exact ⟨i, e, after, target, hn, hrun, hm, ht, cycle_of_run_exec hn hrun ht⟩

/-- A cycle fails exactly when the machine is in a fault, and with that fault. -/
theorem cycle_result_eq_error_iff {random : UInt8} {f : Failure} :
    (vm.cycle random).result = .error f ↔ ∃ e, f = .fault e ∧ vm.machine.fault? = some e := by
  constructor
  · intro h
    cases hf : vm.machine.fault? with
    | some e =>
      rw [(cycle_of_fault hf random).result_eq] at h
      cases h
      exact ⟨e, rfl, rfl⟩
    | none =>
      obtain ⟨i, e, after, target, -, -, -, -, hc⟩ := cycle_of_clear hf random
      rw [hc] at h
      cases h
  · rintro ⟨e, rfl, hf⟩
    exact (cycle_of_fault hf random).result_eq

theorem fault?_eq_none_of_ok {random : UInt8} {notice : Notice}
    (h : (vm.cycle random).result = .ok notice) : vm.machine.fault? = none := by
  cases hf : vm.machine.fault? with
  | none => rfl
  | some f =>
    rw [(cycle_of_fault hf random).result_eq] at h
    cases h

/-! ### Runs of cycles -/

theorem runFrom_cons_of_ok {r : UInt8} {n : Notice} (h : (vm.cycle r).result = .ok n)
    (notice : Notice) (rs : List UInt8) :
    runFrom notice (r :: rs) vm =
      (runFrom n rs (vm.cycle r).vm).behind (vm.cycle r).signals (vm.cycle r).log := by
  rw [runFrom]
  split
  · next heq =>
    rw [heq] at h ⊢
    cases h
    rfl
  · next hne => exact absurd (by rw [← h]) (hne (vm.cycle r).vm n _ _)

theorem runFrom_cons_of_error {r : UInt8} {e : Failure} (h : (vm.cycle r).result = .error e)
    (notice : Notice) (rs : List UInt8) : runFrom notice (r :: rs) vm = vm.cycle r := by
  rw [runFrom]
  split
  · next heq =>
    rw [heq] at h
    cases h
  · rfl

/-- A cycle is a run of one. -/
theorem runFrom_singleton (notice : Notice) (r : UInt8) (vm : Vm) :
    runFrom notice [r] vm = vm.cycle r := by
  cases hc : (vm.cycle r).result with
  | ok n =>
    rw [runFrom_cons_of_ok hc]
    generalize vm.cycle r = o at hc ⊢
    obtain ⟨vm', result, signals, log⟩ := o
    cases hc
    simp [runFrom, Outcome.behind]
  | error e => rw [runFrom_cons_of_error hc]

/-! ### Loads -/

/-- The machine in which a program is installed. -/
def installed (vm : Vm) (program : List UInt8) : Vm :=
  { vm with
    machine := { Machine.blank with memory := Font.memory.store Machine.programStart program }
    state := .idle
    redraw := true }

theorem run_install {program : List UInt8} (h : program.length ≤ Machine.programLimit) :
    (install program).run vm = .ok () (vm.installed program) := by
  have hg : Memory.Contains Font.start Font.rows.length := by decide
  have hp : Memory.Contains Machine.programStart program.length := by
    simp only [Memory.Contains, Memory.size, Machine.programStart, Machine.programLimit] at h ⊢
    omega
  simp [install, Act.run_writeBlock hg, Act.run_writeBlock hp, Machine.blank, Font.memory,
    installed]

theorem load_of_fits {program : List UInt8} (h : program.length ≤ Machine.programLimit)
    (vm : Vm) :
    vm.load program = ⟨vm.installed program, .ok (), [], [.loaded program.length]⟩ := by
  rw [load, if_pos h]
  simp only [run_install h]

theorem pc_installed (vm : Vm) (program : List UInt8) :
    (vm.installed program).machine.pc = Machine.programStart := rfl

theorem memory_installed (vm : Vm) (program : List UInt8) :
    (vm.installed program).machine.memory = Font.memory.store Machine.programStart program := rfl

/-- An installed program is read word by word from where it was put. -/
theorem word?_of_program {m : Machine} {program : List UInt8} {k : Nat} {b b' : UInt8}
    (hm : m.memory = Font.memory.store Machine.programStart program)
    (hpc : m.pc = Machine.programStart + k) (hfits : Machine.programStart + k + 2 ≤ Memory.size)
    (hb : program[k]? = some b) (hb' : program[k + 1]? = some b') :
    m.word? = some (Word.join b b') := by
  obtain ⟨hk, rfl⟩ := List.getElem?_eq_some_iff.mp hb
  obtain ⟨hk', rfl⟩ := List.getElem?_eq_some_iff.mp hb'
  rw [Machine.word?, dif_pos (by rw [hpc]; exact hfits)]
  simp [hm, hpc, Memory.getElem_store, Nat.add_assoc, hk, hk']

/-- An installed program starts with its first two bytes. -/
theorem word?_installed (vm : Vm) (b b' : UInt8) (rest : List UInt8) :
    (vm.installed (b :: b' :: rest)).machine.word? = some (Word.join b b') :=
  word?_of_program (k := 0) (vm.memory_installed _) (Nat.add_zero _).symm (by decide) rfl rfl

/-- A program that begins with a return has nowhere to return to. -/
theorem fault?_installed_ret (vm : Vm) (rest : List UInt8) :
    (vm.installed (0x00 :: 0xEE :: rest)).machine.fault? = some .stackUnderflow := by
  rw [Machine.fault?, word?_installed]
  rfl

theorem load_of_too_large {program : List UInt8} (h : Machine.programLimit < program.length)
    (vm : Vm) :
    (vm.load program).Refused vm (.programTooLarge program.length Machine.programLimit) := by
  rw [load, if_neg (Nat.not_le_of_lt h)]
  exact fail_refused vm _

end Vm

/-! ### Clocks -/

/-- The run state after the clocks were started. -/
def RunState.started : RunState → RunState
  | .idle => .playing false
  | s => s

namespace Vm

theorem resume_eq (vm : Vm) :
    vm.resume = ⟨{ vm with state := vm.state.started }, (), [],
      if vm.state.isPlaying then [] else [.resumed vm.machine.pc]⟩ := by
  obtain ⟨m, state, redraw, config⟩ := vm
  cases state <;> rfl

theorem suspend_eq (vm : Vm) :
    vm.suspend = ⟨{ vm with state := .idle }, (), [],
      if vm.state.isPlaying then [.suspended vm.machine.pc] else []⟩ := by
  obtain ⟨m, state, redraw, config⟩ := vm
  cases state <;> rfl

end Vm

end ChipEight
