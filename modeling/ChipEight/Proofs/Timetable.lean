import ChipEight.Proofs.Histories
import ChipEight.Proofs.Turns
import Mathlib.Data.List.Induction
import Mathlib.Logic.Function.Iterate

/-!
# ChipEight.Proofs.Timetable — what a fixed order of turns comes to

The order in which `Drive` lets the threads take their turns is a list of operations, cycles and
ticks (`timetable`), and `Vm.carryOut` carries such a list out up to the first operation that fails.
`InPlay` says that a player is as far as that, and every turn keeps to it (`turn_cpu_inPlay`,
`turn_timer_inPlay`).  Main statements: so does a session, until its condition holds or its periods
are over (`playFrom_inPlay`), and to stop it changes neither the program nor the faults told
(`perform_suspend_startedOnce`).
-/

namespace ChipEight

/-! ### Operations up to the first failure -/

/-- How far a list of operations was carried out: the machine, and the failure that it met there, if
it met one. -/
structure Progress where
  vm : Vm
  failure? : Option Failure

/-- One operation more, if none has failed. -/
def Progress.next (p : Progress) (op : Operation) : Progress :=
  match p.failure? with
  | some _ => p
  | none =>
    match (p.vm.perform op).failure? with
    | some e => ⟨p.vm, some e⟩
    | none => ⟨(p.vm.perform op).vm, none⟩

/-- The operation is a cycle. -/
def Operation.isCycle : Operation → Bool
  | .cycle _ => true
  | _ => false

/-- Operations carried out one after the other, up to the first that fails. -/
def Vm.carryOut (ops : List Operation) (vm : Vm) : Progress := ops.foldl Progress.next ⟨vm, none⟩

namespace Progress

variable {p : Progress} {random : UInt8}

theorem next_of_failure {e : Failure} (h : p.failure? = some e) (op : Operation) :
    p.next op = p := by
  unfold next
  rw [h]

theorem next_cycle_of_fault {f : Fault} (h : p.failure? = none)
    (hf : p.vm.machine.fault? = some f) : p.next (.cycle random) = ⟨p.vm, some (.fault f)⟩ := by
  have hfail : (p.vm.perform (.cycle random)).failure? = some (.fault f) := by
    simp [Vm.perform, Outcome.map, Outcome.failure?, (Vm.cycle_of_fault hf random).result_eq,
      Except.map]
  unfold next
  rw [h, hfail]

theorem next_cycle_of_clear (h : p.failure? = none) (hf : p.vm.machine.fault? = none) :
    p.next (.cycle random) = ⟨(p.vm.cycle random).vm, none⟩ := by
  have hfail : (p.vm.perform (.cycle random)).failure? = none := by
    obtain ⟨i, e, after, target, -, -, -, -, hc⟩ := Vm.cycle_of_clear hf random
    simp [Vm.perform, Outcome.map, Outcome.failure?, hc, Except.map]
  unfold next
  rw [h, hfail]
  rfl

theorem next_tick (h : p.failure? = none) : p.next .tick = ⟨p.vm.tick.vm, none⟩ := by
  unfold next
  rw [h]
  rfl

end Progress

namespace Vm

variable {vm : Vm} {ops : List Operation}

theorem carryOut_concat (ops : List Operation) (op : Operation) (vm : Vm) :
    vm.carryOut (ops ++ [op]) = (vm.carryOut ops).next op := by
  simp [carryOut]

/-- Nothing is carried out after a failure. -/
theorem carryOut_append_of_failure {e : Failure} (h : (vm.carryOut ops).failure? = some e)
    (late : List Operation) : vm.carryOut (ops ++ late) = vm.carryOut ops := by
  induction late using List.reverseRecOn with
  | nil => rw [List.append_nil]
  | append_singleton late op ih =>
    rw [← List.append_assoc, carryOut_concat, ih, Progress.next_of_failure h]

/-- Nothing is carried out in a machine that is in a fault. -/
theorem carryOut_cycle_of_fault {f : Fault} (hf : vm.machine.fault? = some f) (random : UInt8)
    (late : List Operation) : vm.carryOut (.cycle random :: late) = ⟨vm, some (.fault f)⟩ := by
  have hfirst : vm.carryOut [.cycle random] = ⟨vm, some (.fault f)⟩ :=
    Progress.next_cycle_of_fault (p := ⟨vm, none⟩) rfl hf
  rw [← List.singleton_append, carryOut_append_of_failure (by rw [hfirst]), hfirst]

end Vm

namespace Player

variable {r r' : Player} {id : ThreadId} {random : UInt8} {phase phase' : Phase}

/-! ### Turns -/

/-- A turn ends when the thread is back at the flag. -/
theorem turnWithin_of_back (hs : r.threadStep? id random = some r')
    (h : r.phase? id = some .stepping) (h' : r'.phase? id = some .checking) (k : Nat) :
    turnWithin id random (k + 1) r = r' := by
  simp only [turnWithin, hs, h, h']

/-- Before that, the thread goes on. -/
theorem turnWithin_of_step (hs : r.threadStep? id random = some r')
    (h : r.phase? id = some phase) (h' : r'.phase? id = some phase')
    (hon : phase ≠ .stepping ∨ phase' ≠ .checking) (k : Nat) :
    turnWithin id random (k + 1) r = turnWithin id random k r' := by
  simp only [turnWithin, hs, h, h']
  split
  · rcases hon with hon | hon <;> simp_all
  · rfl

theorem turnWithin_of_finished (h : r.phase? id = some .finished) (k : Nat) :
    turnWithin id random k r = r := by
  cases k with
  | zero => rfl
  | succ k => simp only [turnWithin, threadStep?, h]

/-! ### A machine that was started once -/

variable {vm : Vm} {cpu timer : Phase} {signals : Array Signal} {log : Array Record} {f : Fault}
  {p : Progress}

theorem faults_startedOnce (vm : Vm) (cpu timer : Phase) (signals : Array Signal)
    (log : Array Record) :
    (startedOnce vm cpu timer signals log).faults = signals.toList.filterMap Signal.fault? := rfl

/-- A thread that is not at work and not at its end is on its way to the flag, or at it. -/
theorem turn_cpu_eq (vm : Vm) (random : UInt8) (hcpu : cpu = .starting ∨ cpu = .checking) :
    ∃ k log', (startedOnce vm cpu timer signals log).turn .cpu random =
      turnWithin ⟨1, .cpu⟩ random (k + 2) (startedOnce vm .stepping timer signals log') := by
  rcases hcpu with rfl | rfl
  · exact ⟨0, _, rfl⟩
  · exact ⟨1, _, rfl⟩

/-- A cycle that succeeds brings the processor's thread back to the flag. -/
theorem threadStep?_cpu_of_clear (hf : vm.machine.fault? = none) :
    ∃ log', (startedOnce vm .stepping timer signals log).threadStep? ⟨1, .cpu⟩ random =
      some (startedOnce (vm.cycle random).vm .checking timer signals log') := by
  obtain ⟨i, e, after, target, -, -, -, -, hc⟩ := Vm.cycle_of_clear hf random
  refine ⟨log ++ (vm.cycle random).log.filter (fun record => record.level != .trace), ?_⟩
  show some (taskStep _ _ _) = _
  simp only [taskStep, startedOnce, absorb, hc]
  rfl

/-- One that fails takes it out of its loop. -/
theorem threadStep?_cpu_of_fault (hf : vm.machine.fault? = some f) :
    ∃ log', (startedOnce vm .stepping timer signals log).threadStep? ⟨1, .cpu⟩ random =
      some (startedOnce vm .stopping timer (signals.push (.error f)) log') := by
  have hc := Vm.cycle_of_fault hf random
  refine ⟨log ++ (vm.cycle random).log.filter (fun record => record.level != .trace), ?_⟩
  show some (taskStep _ _ _) = _
  simp only [taskStep, startedOnce, absorb, hc.result_eq, hc.vm_eq, hc.signals_eq]
  rfl

theorem turn_cpu_of_clear (hcpu : cpu = .starting ∨ cpu = .checking)
    (hf : vm.machine.fault? = none) :
    ∃ log', (startedOnce vm cpu timer signals log).turn .cpu random =
      startedOnce (vm.cycle random).vm .checking timer signals log' := by
  obtain ⟨k, log', hturn⟩ := turn_cpu_eq vm random hcpu
  obtain ⟨log'', hstep⟩ := threadStep?_cpu_of_clear hf
  exact ⟨log'', hturn.trans (turnWithin_of_back hstep rfl rfl _)⟩

theorem turn_cpu_of_fault (hcpu : cpu = .starting ∨ cpu = .checking)
    (hf : vm.machine.fault? = some f) :
    ∃ log', (startedOnce vm cpu timer signals log).turn .cpu random =
      startedOnce vm .finished timer (signals.push (.error f)) log' := by
  obtain ⟨k, log', hturn⟩ := turn_cpu_eq vm random hcpu
  obtain ⟨log'', hstep⟩ := threadStep?_cpu_of_fault hf
  let left := startedOnce vm .stopping timer (signals.push (.error f)) log''
  have hstop : left.threadStep? ⟨1, .cpu⟩ random =
      some (startedOnce vm .finished timer (signals.push (.error f))
        (log''.push (.taskStopped .cpu))) := rfl
  refine ⟨log''.push (.taskStopped .cpu), ?_⟩
  rw [hturn, turnWithin_of_step hstep rfl rfl (.inr (by decide)),
    turnWithin_of_step hstop rfl rfl (.inl (by decide)), turnWithin_of_finished rfl]

theorem turn_timer (vm : Vm) (cpu : Phase) (htimer : timer = .starting ∨ timer = .checking)
    (signals : Array Signal) (log : Array Record) :
    ∃ log', (startedOnce vm cpu timer signals log).turn .timer random =
      startedOnce vm.tick.vm cpu .checking (signals ++ vm.tick.signals) log' := by
  rcases htimer with rfl | rfl <;> exact ⟨_, rfl⟩

/-- Between turns the player has come as far as `p`: the processor's thread is on its way to the flag
and no fault was told, or it is at its end, the one that was told is the one that the program is in,
and the program stands as it stood then. -/
inductive InPlay (p : Progress) : Player → Prop
  | going {cpu timer : Phase} {signals : Array Signal} {log : Array Record}
      (cpu_waits : cpu = .starting ∨ cpu = .checking)
      (timer_waits : timer = .starting ∨ timer = .checking) (clear : p.failure? = none)
      (told : (startedOnce p.vm cpu timer signals log).faults = []) :
      InPlay p (startedOnce p.vm cpu timer signals log)
  | stopped {vm : Vm} {timer : Phase} {signals : Array Signal} {log : Array Record} {f : Fault}
      (timer_waits : timer = .starting ∨ timer = .checking)
      (failed : p.failure? = some (.fault f)) (fault_eq : p.vm.machine.fault? = some f)
      (same : p.vm.machine.SameProgram vm.machine)
      (told : (startedOnce vm .finished timer signals log).faults = [f]) :
      InPlay p (startedOnce vm .finished timer signals log)

theorem filterMap_fault?_tick (vm : Vm) : vm.tick.signals.filterMap Signal.fault? = [] :=
  vm.tick_told.symm

theorem turn_cpu_inPlay (h : InPlay p r) (random : UInt8) :
    InPlay (p.next (.cycle random)) (r.turn .cpu random) := by
  cases h with
  | @going cpu timer signals log hcpu htimer hclear htold =>
    cases hf : p.vm.machine.fault? with
    | none =>
      obtain ⟨log', hturn⟩ := turn_cpu_of_clear hcpu hf
      rw [hturn, Progress.next_cycle_of_clear hclear hf]
      exact .going (.inr rfl) htimer rfl htold
    | some f =>
      obtain ⟨log', hturn⟩ := turn_cpu_of_fault hcpu hf
      rw [hturn, Progress.next_cycle_of_fault hclear hf]
      refine .stopped htimer rfl hf (.refl _) ?_
      rw [faults_startedOnce] at htold ⊢
      rw [Array.toList_push, List.filterMap_append, htold]
      rfl
  | stopped htimer hfail hfault hsame htold =>
    rw [Progress.next_of_failure hfail]
    exact .stopped htimer hfail hfault hsame htold

theorem turn_timer_inPlay (h : InPlay p r) : InPlay (p.next .tick) (r.turn .timer 0) := by
  have htick : ∀ {vm : Vm} {cpu timer : Phase} {signals : Array Signal} {log log' : Array Record},
      (startedOnce vm.tick.vm cpu .checking (signals ++ vm.tick.signals) log').faults =
        (startedOnce vm cpu timer signals log).faults := by
    intro vm cpu timer signals log log'
    rw [faults_startedOnce, faults_startedOnce, Array.toList_appendList, List.filterMap_append,
      filterMap_fault?_tick, List.append_nil]
  cases h with
  | @going cpu timer signals log hcpu htimer hclear htold =>
    obtain ⟨log', hturn⟩ := turn_timer p.vm cpu htimer signals log
    rw [hturn, Progress.next_tick hclear]
    exact .going hcpu (.inr rfl) rfl (htick.trans htold)
  | @stopped vm timer signals log f htimer hfail hfault hsame htold =>
    obtain ⟨log', hturn⟩ := turn_timer vm .finished htimer signals log
    have hstill : vm.machine.SameProgram vm.tick.vm.machine := ⟨rfl, rfl, rfl, rfl, rfl, rfl⟩
    rw [hturn, Progress.next_of_failure hfail]
    exact .stopped (.inr rfl) hfail hfault (hsame.trans hstill) (htick.trans htold)

/-- To stop the machine changes nothing but the run state, and no fault is told. -/
theorem perform_suspend_startedOnce (vm : Vm)
    (hcpu : cpu = .starting ∨ cpu = .checking ∨ cpu = .finished)
    (htimer : timer = .starting ∨ timer = .checking) (signals : Array Signal)
    (log : Array Record) :
    let r := startedOnce vm cpu timer signals log
    (r.perform .suspend).vm = vm.suspend.vm ∧ (r.perform .suspend).faults = r.faults := by
  intro r
  have hsignals : (r.perform .suspend).signals = signals ++ vm.suspend.signals := by
    rcases hcpu with rfl | rfl | rfl <;> rcases htimer with rfl | rfl <;> rfl
  refine ⟨?_, ?_⟩
  · rcases hcpu with rfl | rfl | rfl <;> rcases htimer with rfl | rfl <;> rfl
  · rw [faults, hsignals, vm.suspend_told.2]
    simp [faults_startedOnce, r]

end Player

namespace Session

open Player

variable {vm : Vm} {ops : List Operation} {s : Session}

/-! ### Turns as operations -/

/-- The cycles of so many turns of the processor's thread. -/
def cyclesFrom (noise : UInt64) : Nat → List Operation
  | 0 => []
  | k + 1 => .cycle (Noise.byte noise) :: cyclesFrom (Noise.advance noise) k

/-- The cycles and ticks of so many periods, from the one with the given number on. -/
def timetable (turns : Nat → Nat) (first : Nat) (noise : UInt64) : Nat → List Operation
  | 0 => []
  | k + 1 =>
    cyclesFrom noise (turns first) ++
      .tick :: timetable turns (first + 1) (Noise.advance^[turns first] noise) k

theorem exists_timetable_eq {turns : Nat → Nat} {first : Nat} (h : 0 < turns first)
    (noise : UInt64) (k : Nat) :
    ∃ random late, timetable turns first noise (k + 1) = .cycle random :: late := by
  obtain ⟨n, hn⟩ := Nat.exists_eq_succ_of_ne_zero h.ne'
  rw [timetable, hn, cyclesFrom]
  exact ⟨_, _, rfl⟩

theorem cycles_noise (k : Nat) (s : Session) : (cycles k s).noise = Noise.advance^[k] s.noise := by
  induction k generalizing s with
  | zero => rfl
  | succ k ih => rw [cycles, ih, Function.iterate_succ_apply]

theorem period_noise (turns : Nat) (s : Session) :
    (period turns s).noise = Noise.advance^[turns] s.noise := cycles_noise turns s

/-! ### How many there are -/

theorem count_tick_cyclesFrom (noise : UInt64) (k : Nat) : (cyclesFrom noise k).count .tick = 0 := by
  induction k generalizing noise with
  | zero => rfl
  | succ k ih => simp [cyclesFrom, ih]

theorem count_tick_timetable (turns : Nat → Nat) (first : Nat) (noise : UInt64) (k : Nat) :
    (timetable turns first noise k).count .tick = k := by
  induction k generalizing first noise with
  | zero => rfl
  | succ k ih => simp [timetable, count_tick_cyclesFrom, ih]

theorem countP_isCycle_cyclesFrom (noise : UInt64) (k : Nat) :
    (cyclesFrom noise k).countP Operation.isCycle = k := by
  induction k generalizing noise with
  | zero => rfl
  | succ k ih =>
    rw [cyclesFrom, List.countP_cons, ih]
    rfl

/-- If each period has the turns that come due in it, there is a cycle for each that is due by the
end. -/
theorem countP_isCycle_timetable {due : Nat → Nat} (hdue : Monotone due) (first : Nat)
    (noise : UInt64) (k : Nat) :
    (timetable (fun n => due (n + 1) - due n) first noise k).countP Operation.isCycle =
      due (first + k) - due first := by
  induction k generalizing first noise with
  | zero => simp [timetable]
  | succ k ih =>
    have hfirst : due first ≤ due (first + 1) := hdue (Nat.le_succ first)
    have hrest : due (first + 1) ≤ due (first + 1 + k) := hdue (Nat.le_add_right _ k)
    have hlast : first + (k + 1) = first + 1 + k := by omega
    rw [hlast, timetable, List.countP_append, List.countP_cons, countP_isCycle_cyclesFrom, ih]
    simp only [Operation.isCycle, Bool.false_eq_true, if_false]
    omega

/-! ### The turns of a session -/

/-- The processor's turns carry out their cycles. -/
theorem cycles_inPlay (h : InPlay (vm.carryOut ops) s.player) (k : Nat) :
    InPlay (vm.carryOut (ops ++ cyclesFrom s.noise k)) (cycles k s).player := by
  induction k generalizing s ops with
  | zero =>
    rw [cyclesFrom, List.append_nil]
    exact h
  | succ k ih =>
    have hturn := turn_cpu_inPlay h (Noise.byte s.noise)
    rw [← Vm.carryOut_concat] at hturn
    rw [cycles, cyclesFrom, List.append_cons]
    exact ih (s := ⟨s.player.turn .cpu (Noise.byte s.noise), Noise.advance s.noise⟩) hturn

theorem period_inPlay (h : InPlay (vm.carryOut ops) s.player) (turns : Nat) :
    InPlay (vm.carryOut (ops ++ cyclesFrom s.noise turns ++ [.tick])) (period turns s).player := by
  rw [Vm.carryOut_concat]
  exact turn_timer_inPlay (cycles_inPlay h turns)

/-- The turns of a session carry out its timetable: all of it, unless the condition, which holds
only behind a failure, ends it before. -/
theorem playFrom_inPlay {done : Player → Bool}
    (hdone : ∀ p r, InPlay p r → done r = true → p.failure? ≠ none) (turns : Nat → Nat)
    (first k : Nat) (h : InPlay (vm.carryOut ops) s.player) :
    InPlay (vm.carryOut (ops ++ timetable turns first s.noise k))
      (playFrom done turns first k s).player := by
  induction k generalizing first ops s with
  | zero =>
    rw [timetable, List.append_nil]
    exact h
  | succ k ih =>
    rw [playFrom]
    by_cases hstop : done s.player = true
    · obtain ⟨e, he⟩ := Option.ne_none_iff_exists'.mp (hdone _ _ h hstop)
      rw [if_pos hstop, Vm.carryOut_append_of_failure he]
      exact h
    · have hrest := ih (first + 1) (period_inPlay h (turns first))
      rw [period_noise] at hrest
      rw [if_neg hstop, timetable]
      simpa only [List.append_assoc, List.singleton_append] using hrest

end Session

end ChipEight
