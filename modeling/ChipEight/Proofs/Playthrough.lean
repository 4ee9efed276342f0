import ChipEight.Proofs.Failure
import ChipEight.Proofs.Scheduling

/-!
# ChipEight.Proofs.Playthrough — a machine started, left to its threads and stopped

In a play-through the host starts a machine, does nothing to it while the threads take their turns,
and stops it.  Faults are logged as they are signalled (`step?_logged`).  Main statements: a
play-through signals the faults of the steps of its tasks and no others (`Playthrough.faults_eq`);
and one of these that fails is the only one that does, and the program stands at the end as it stood
then (`Playthrough.of_failure`).
-/

namespace ChipEight

/-! ### Faults told -/

/-- The fault that a signal tells of. -/
def Signal.fault? : Signal → Option Fault
  | .error f => some f
  | _ => none

/-- The fault that a record tells of. -/
def Record.fault? : Record → Option Fault
  | .failed f => some f
  | _ => none

/-- The operation logged the faults that it signalled. -/
def Outcome.Told (o : Outcome α) : Prop :=
  o.log.filterMap Record.fault? = o.signals.filterMap Signal.fault?

namespace Vm

theorem fail_told (vm : Vm) (f : Failure) : (vm.fail f : Outcome (Except Failure α)).Told := by
  cases f <;> rfl

theorem load_told (vm : Vm) (program : List UInt8) : (vm.load program).Told := by
  unfold load
  split
  · split
    · rfl
    · exact fail_told _ _
  · exact fail_told _ _

theorem cycle_told (vm : Vm) (random : UInt8) : (vm.cycle random).Told := by
  unfold cycle
  split
  · exact fail_told _ _
  · split
    · rfl
    · exact fail_told _ _

theorem tick_told (vm : Vm) : vm.tick.Told := by
  simp only [Outcome.Told, tick]
  split <;> split <;> rfl

theorem resume_told (vm : Vm) : vm.resume.Told ∧ vm.resume.signals = [] := by
  unfold resume
  split <;> exact ⟨rfl, rfl⟩

theorem suspend_told (vm : Vm) : vm.suspend.Told ∧ vm.suspend.signals = [] := by
  unfold suspend
  split <;> exact ⟨rfl, rfl⟩

end Vm

/-- The faults that a step of a task signalled. -/
def Beat.faults (b : Beat) : List Fault := b.signals.filterMap Signal.fault?

/-- The step signalled how it failed, if it did, and only the processor's steps do. -/
def Beat.Honest (b : Beat) : Prop :=
  b.failure? = none ∧ b.faults = [] ∨
    ∃ f, b.failure? = some (.fault f) ∧ b.id.task = .cpu ∧ b.faults = [f]

/-- The step got the program no further: it was a tick, or it failed. -/
def Beat.Still (b : Beat) : Prop := b.id.task = .timer ∨ b.failure? ≠ none

namespace HostPhase

/-- The call in progress starts the machine, and there is no thread yet. -/
def opens : HostPhase → Bool
  | .resuming | .raising => true
  | .ready _ | .joining _ | .settling _ | .loading _ | .spawning _ => false

/-- The call in progress, if there is one, neither loads a program nor is it still to start the
machine. -/
def plain : HostPhase → Bool
  | .ready _ | .spawning _ => true
  | .joining sequel | .settling sequel => sequel == .nothing
  | .loading _ | .resuming | .raising => false

theorem alone_of_opens {host : HostPhase} (h : host.opens = true) : host.alone = true := by
  cases host with
  | resuming | raising => rfl
  | ready | joining | settling | loading | spawning => cases h

end HostPhase

/-- The move is none of the host's calls but that to stop the machine. -/
def Move.Plays (m : Move) : Prop := m.isCall = false ∨ m = .call .suspend

theorem Move.Plays.eq_suspend {c : Call} (h : (Move.call c).Plays) : c = .suspend := by
  rcases h with hc | hc <;> cases hc
  rfl

namespace Player

variable {r r' r₀ : Player} {m : Move} {id : ThreadId} {random : UInt8} {n : Nat}

/-- The faults that the host was told of. -/
def faults (r : Player) : List Fault := r.signals.toList.filterMap Signal.fault?

/-- The faults that the host was told of are those in the log. -/
def Logged (r : Player) : Prop := r.log.toList.filterMap Record.fault? = r.faults

theorem filterMap_fault?_filter (log : List Record) :
    (log.filter fun record => record.level != .trace).filterMap Record.fault? =
      log.filterMap Record.fault? := by
  rw [List.filterMap_filter]
  refine List.filterMap_congr fun record _ => ?_
  cases record <;> rfl

theorem absorb_logged (h : Logged r) {o : Outcome α} (ho : o.Told) : Logged (r.absorb o) := by
  simp only [Logged, faults, absorb, Array.toList_appendList, List.filterMap_append,
    filterMap_fault?_filter]
  rw [show r.log.toList.filterMap Record.fault? = _ from h, show o.log.filterMap _ = _ from ho]
  rfl

theorem note_logged (h : Logged r) {record : Record} (hr : record.fault? = none) :
    Logged (r.note record) := by
  simp only [Logged, note, Array.toList_push, List.filterMap_append, List.filterMap_cons, hr,
    List.filterMap_nil, List.append_nil]
  exact h

theorem threadStep?_logged (h : Logged r) (hm : r.threadStep? id random = some r') :
    Logged r' := by
  unfold threadStep? at hm
  split at hm
  · cases hm
  · cases hm
  · cases hm
    exact note_logged h rfl
  · cases hm
    exact h
  · cases hm
    unfold taskStep
    split
    · exact absorb_logged h (r.vm.cycle_told random)
    · exact absorb_logged h r.vm.tick_told
  · cases hm
    exact note_logged h rfl

/-- Whatever a move is, the faults it signals are logged. -/
theorem step?_logged (h : Logged r) (hm : r.step? m = some r') : Logged r' := by
  cases m with
  | thread id random => exact threadStep?_logged h hm
  | host =>
    cases hostStep?_went hm with
    | gone | join | raise | spawnCpu | spawnTimer => exact h
    | settle => exact absorb_logged h r.vm.suspend_told.1
    | load => exact absorb_logged h (r.vm.load_told _)
    | resume => exact absorb_logged h r.vm.resume_told.1
  | call c =>
    cases c with
    | load | resume | suspend =>
      cases (step?_call hm).2 with
      | halt | pass | already => exact h
      | key hc => cases hc
    | keyDown | keyUp =>
      obtain ⟨-, hbegin⟩ := Option.ite_none_right_eq_some.mp hm
      cases hbegin
      exact absorb_logged h rfl

/-! ### Steps of tasks -/

theorem step?_honest (hm : r.step? m = some r') {b : Beat} (hb : r.beat? m = some b) :
    b.Honest := by
  cases m with
  | call | host => cases hb
  | thread id random =>
    obtain ⟨phase, phase', hw⟩ := threadStep?_went hm
    have hadvance := hw.advance
    rw [hb] at hadvance
    cases hadvance with
    | @beat signals clear =>
      refine .inl ⟨rfl, ?_⟩
      rw [Beat.faults, List.filterMap_eq_nil_iff]
      intro s hs
      cases s with
      | error f => exact absurd hs (clear f)
      | redraw | beep => rfl
    | fail cpu f => exact .inr ⟨f, rfl, cpu, rfl⟩

/-- What a step of a task is, and what it does to the machine. -/
theorem step?_task (hm : r.step? (.thread id random) = some r') {b : Beat}
    (hb : r.beat? (.thread id random) = some b) :
    b.id = id ∧
      (id.task = .cpu → b.failure? = (r.vm.cycle random).failure? ∧
        r'.vm = (r.vm.cycle random).vm) ∧
      (id.task = .timer → r'.vm = r.vm.tick.vm) := by
  obtain ⟨round, task⟩ := id
  obtain ⟨hphase, hb⟩ := Option.ite_none_right_eq_some.mp hb
  have hstep : r' = r.taskStep ⟨round, task⟩ random := by
    simpa only [step?, threadStep?, hphase, Option.some.injEq, eq_comm] using hm
  subst hstep
  cases task with
  | cpu =>
    cases hb
    exact ⟨rfl, fun _ => ⟨rfl, rfl⟩, Task.noConfusion⟩
  | timer =>
    cases hb
    exact ⟨rfl, Task.noConfusion, fun _ => rfl⟩

/-- A step that fails meets the fault that the machine is in. -/
theorem fault?_of_failure (hm : r.step? m = some r') {b : Beat} (hb : r.beat? m = some b)
    {e : Failure} (he : b.failure? = some e) :
    ∃ f, e = .fault f ∧ b.id.task = .cpu ∧ r.vm.machine.fault? = some f ∧ b.faults = [f] ∧
      r'.vm = r.vm := by
  rcases step?_honest hm hb with ⟨hnone, -⟩ | ⟨f, hf, hcpu, hfaults⟩
  · rw [hnone] at he
    cases he
  · cases m with
    | call | host => cases hb
    | thread id random =>
      obtain ⟨rfl, htask, -⟩ := step?_task hm hb
      obtain ⟨hfailure, hvm⟩ := htask hcpu
      obtain rfl := Option.some.inj (he.symm.trans hf)
      have hresult : (r.vm.cycle random).result = .error (.fault f) := by
        rw [hfailure, Outcome.failure?] at hf
        split at hf
        · cases hf
        · next hr =>
          cases hf
          exact hr
      obtain ⟨f', hf', hfault⟩ := Vm.cycle_result_eq_error_iff.mp hresult
      cases hf'
      exact ⟨f, rfl, hcpu, hfault, hfaults, hvm.trans (Vm.cycle_of_fault hfault random).vm_eq⟩

/-- A tick and a step that fails leave the program alone. -/
theorem step?_still (hm : r.step? m = some r') {b : Beat} (hb : r.beat? m = some b)
    (hstill : b.Still) : r.vm.machine.SameProgram r'.vm.machine := by
  rcases hstill with htimer | hfail
  · cases m with
    | call | host => cases hb
    | thread id random =>
      obtain ⟨rfl, -, htask⟩ := step?_task hm hb
      rw [htask htimer]
      exact ⟨rfl, rfl, rfl, rfl, rfl, rfl⟩
  · obtain ⟨e, he⟩ := Option.ne_none_iff_exists'.mp hfail
    obtain ⟨f, -, -, -, -, hvm⟩ := fault?_of_failure hm hb he
    rw [hvm]
    exact .refl _

/-! ### Moves of a play-through -/

/-- The machine is being started for the time after `n`, or was, and is not started again. -/
structure Driven (n : Nat) (r : Player) : Prop where
  orderly : Orderly r
  phase : r.host.opens = true ∧ r.round = n ∨ r.host.plain = true ∧ r.round = n + 1

theorem Driven.not_loading (h : Driven n r) (program : List UInt8) :
    r.host ≠ .loading program := by
  intro hhost
  have hphase := h.phase
  rw [hhost] at hphase
  rcases hphase with ⟨hopens, -⟩ | ⟨hplain, -⟩
  · cases hopens
  · cases hplain

/-- As long as the machine is not started there is no thread. -/
theorem Driven.round_of_mem (h : Driven n r) {t : Thread} (ht : t ∈ r.threads) :
    t.id.round = n + 1 := by
  rw [h.orderly.id_round ht]
  rcases h.phase with ⟨hopens, -⟩ | ⟨-, hround⟩
  · have halone := HostPhase.alone_of_opens hopens
    rw [h.orderly.threads_eq_nil (h.orderly.handles_eq_nil rfl halone)] at ht
    cases ht
  · exact hround

theorem step?_driven (h : Driven n r) (hplays : m.Plays) (hm : r.step? m = some r') :
    Driven n r' ∧ ∀ b ∈ r.beat? m, b.id.round = n + 1 := by
  have ho := step?_orderly h.orderly hm
  have hphase := h.phase
  cases m with
  | call c =>
    obtain rfl := hplays.eq_suspend
    obtain ⟨hready, hb⟩ := step?_call hm
    obtain ⟨result, hhost⟩ := HostPhase.isReady_iff.mp hready
    rw [hhost] at hphase
    have hround : r.round = n + 1 := by
      rcases hphase with ⟨hopens, -⟩ | ⟨-, hround⟩
      · cases hopens
      · exact hround
    refine ⟨⟨ho, .inr ?_⟩, nofun⟩
    cases hb with
    | halt hc | pass hc =>
      cases hc
      exact ⟨rfl, hround⟩
    | already hc => cases hc
    | key hc => cases hc
  | host =>
    refine ⟨⟨ho, ?_⟩, nofun⟩
    cases hostStep?_went hm with
    | @gone sequel hhost =>
      rw [hhost] at hphase
      exact hphase
    | join => exact hphase
    | @settle sequel hhost =>
      rw [hhost] at hphase
      cases sequel with
      | nothing => exact hphase
      | load | start => simp [HostPhase.opens, HostPhase.plain] at hphase
    | load hhost => exact absurd hhost (h.not_loading _)
    | resume hhost =>
      rw [hhost] at hphase
      exact hphase
    | raise hhost =>
      rw [hhost] at hphase
      simp only [HostPhase.opens, HostPhase.plain, Bool.false_eq_true, true_and, false_and,
        or_false] at hphase
      exact .inr ⟨rfl, congrArg (· + 1) hphase⟩
    | spawnCpu hhost | spawnTimer hhost =>
      rw [hhost] at hphase
      exact hphase
  | thread id random =>
    obtain ⟨phase, phase', hw⟩ := threadStep?_went hm
    refine ⟨⟨ho, ?_⟩, fun b hb => ?_⟩
    · rw [hw.host_eq, hw.round_eq]
      exact hphase
    · rw [hw.beat_id hb]
      exact h.round_of_mem hw.mem_before

/-- The faults that a move signals are those of its step of a task. -/
theorem step?_faults (h : Driven n r) (hplays : m.Plays) (hm : r.step? m = some r') :
    r'.faults = r.faults ++ (r.beat? m).toList.flatMap Beat.faults := by
  have habsorb {o : Outcome Unit} (hs : o.signals = []) : (r.absorb o).faults = r.faults := by
    simp [faults, absorb, hs]
  cases m with
  | call c =>
    show r'.faults = r.faults ++ []
    rw [List.append_nil]
    obtain rfl := hplays.eq_suspend
    cases (step?_call hm).2 with
    | halt | pass | already => rfl
    | key hc => cases hc
  | host =>
    show r'.faults = r.faults ++ []
    rw [List.append_nil]
    cases hostStep?_went hm with
    | gone | join | raise | spawnCpu | spawnTimer => rfl
    | settle => exact habsorb r.vm.suspend_told.2
    | resume => exact habsorb r.vm.resume_told.2
    | load hhost => exact absurd hhost (h.not_loading _)
  | thread id random =>
    obtain ⟨phase, phase', hw⟩ := threadStep?_went hm
    rw [faults, hw.signals_eq, faults]
    cases r.beat? (.thread id random) with
    | none => simp
    | some b => simp [Beat.faults]

/-- Where no step of a task is made, only the run state may change. -/
theorem step?_vm_eq (h : Driven n r) (hplays : m.Plays) (hm : r.step? m = some r')
    (hb : r.beat? m = none) : r'.vm = { r.vm with state := r'.vm.state } := by
  cases m with
  | call c =>
    obtain rfl := hplays.eq_suspend
    cases (step?_call hm).2 with
    | halt | pass | already => rfl
    | key hc => cases hc
  | host =>
    cases hostStep?_went hm with
    | gone | join | raise | spawnCpu | spawnTimer => rfl
    | settle =>
      show r.vm.suspend.vm = { r.vm with state := r.vm.suspend.vm.state }
      rw [Vm.suspend_eq]
    | resume =>
      show r.vm.resume.vm = { r.vm with state := r.vm.resume.vm.state }
      rw [Vm.resume_eq]
    | load hhost => exact absurd hhost (h.not_loading _)
  | thread id random =>
    obtain ⟨phase, phase', hw⟩ := threadStep?_went hm
    rw [hw.vm_eq hb]

theorem step?_sameProgram (h : Driven n r) (hplays : m.Plays) (hm : r.step? m = some r')
    (hstill : ∀ b ∈ r.beat? m, b.Still) : r.vm.machine.SameProgram r'.vm.machine := by
  cases hb : r.beat? m with
  | none =>
    rw [step?_vm_eq h hplays hm hb]
    exact .refl _
  | some b => exact step?_still hm hb (hstill b hb)

/-! ### Lists of moves -/

variable {moves early late : List Move}

theorem steps?_driven (h : Driven n r) (hplays : ∀ m ∈ moves, m.Plays)
    (hs : r.steps? moves = some r') :
    Driven n r' ∧ ∀ b ∈ r.beats moves, b.id.round = n + 1 :=
  steps?_steady (fun _ _ _ => step?_driven) h hplays hs

theorem steps?_honest (hs : r.steps? moves = some r') : ∀ b ∈ r.beats moves, b.Honest :=
  (steps?_steady (I := fun _ => True) (A := fun _ => True) (Q := Beat.Honest)
    (fun _ _ _ _ _ hm => ⟨trivial, fun _ hb => step?_honest hm hb⟩) trivial (fun _ _ => trivial)
    hs).2

theorem steps?_faults (h : Driven n r) (hplays : ∀ m ∈ moves, m.Plays)
    (hs : r.steps? moves = some r') :
    r'.faults = r.faults ++ (r.beats moves).flatMap Beat.faults := by
  induction moves generalizing r with
  | nil =>
    cases hs
    simp
  | cons m moves ih =>
    obtain ⟨r₁, h₁, h₂⟩ := steps?_cons.mp hs
    rw [List.forall_mem_cons] at hplays
    have hrest := ih (step?_driven h hplays.1 h₁).1 hplays.2 h₂
    rw [hrest, step?_faults h hplays.1 h₁, beats_cons h₁, List.flatMap_append, List.append_assoc]

/-- As long as no step of a task gets further, the program stays what it is. -/
theorem steps?_sameProgram (h : Driven n r) (hplays : ∀ m ∈ moves, m.Plays)
    (hs : r.steps? moves = some r') (hstill : ∀ b ∈ r.beats moves, b.Still) :
    r.vm.machine.SameProgram r'.vm.machine := by
  refine (steps?_steady_of_beats (Q := fun _ => True)
    (I := fun now => Driven n now ∧ r.vm.machine.SameProgram now.vm.machine) ?_
    ⟨h, .refl _⟩ hplays hstill hs).1.2
  intro now m after ⟨hd, hsame⟩ hplays hstill hm
  have hstep := step?_sameProgram hd hplays hm hstill
  exact ⟨⟨(step?_driven hd hplays hm).1, hsame.trans hstep⟩, fun _ _ => trivial⟩

/-- As long as no step of a task is made at all, so does the rest of the machine. -/
theorem steps?_vm_eq (h : Driven n r) (hplays : ∀ m ∈ moves, m.Plays)
    (hs : r.steps? moves = some r') (hnone : r.beats moves = []) :
    r'.vm = { r.vm with state := r'.vm.state } := by
  refine (steps?_steady_of_beats (B := fun _ => False) (Q := fun _ => True)
    (I := fun now => Driven n now ∧ now.vm = { r.vm with state := now.vm.state }) ?_
    ⟨h, rfl⟩ hplays (fun b hb => ?_) hs).1.2
  · intro now m after ⟨hd, hvm⟩ hplays hnone hm
    have hstep := step?_vm_eq hd hplays hm (Option.eq_none_iff_forall_not_mem.mpr hnone)
    refine ⟨⟨(step?_driven hd hplays hm).1, ?_⟩, fun _ _ => trivial⟩
    rw [hstep, hvm]
  · rw [hnone] at hb
    cases hb

/-! ### Steps of one start -/

theorem faults_of_clear {beats : List Beat} (hhonest : ∀ b ∈ beats, b.Honest)
    (hclear : ∀ b ∈ beats, b.failure? = none) : beats.flatMap Beat.faults = [] := by
  rw [List.flatMap_eq_nil_iff]
  intro b hb
  rcases hhonest b hb with ⟨-, hnone⟩ | ⟨f, hfail, -⟩
  · exact hnone
  · rw [hclear b hb] at hfail
    cases hfail

theorem timer_of_honest {b : Beat} (h : b.Honest) (htimer : b.id.task = .timer) :
    b.failure? = none := by
  rcases h with ⟨hnone, -⟩ | ⟨f, -, hcpu, -⟩
  · exact hnone
  · rw [htimer] at hcpu
    cases hcpu

/-- A start has one thread of the processor.  So if a step of it fails, none failed before, and only
ticks come after. -/
theorem clear_and_timer_of_failure {before after : List Beat} {b : Beat}
    (hhonest : ∀ b' ∈ before ++ b :: after, b'.Honest)
    (hround : ∀ b' ∈ before ++ b :: after, b'.id.round = n)
    (hpairwise : (before ++ b :: after).Pairwise fun b late =>
      b.failure? ≠ none → late.id ≠ b.id)
    (hcpu : b.id.task = .cpu) (hfail : b.failure? ≠ none) :
    (∀ b' ∈ before, b'.failure? = none) ∧ ∀ b' ∈ after, b'.id.task = .timer := by
  rw [List.forall_mem_append, List.forall_mem_cons] at hhonest hround
  rw [List.pairwise_append, List.pairwise_cons] at hpairwise
  obtain ⟨-, ⟨hafter, -⟩, hbefore⟩ := hpairwise
  have hb : b.id = ⟨n, .cpu⟩ := by rw [← hcpu, ← hround.2.1]
  have hid : ∀ {id : ThreadId}, id.task = .cpu → id.round = n → id = b.id := by
    intro id htask hr
    rw [hb, ← htask, ← hr]
  refine ⟨fun b' hb' => ?_, fun b' hb' => ?_⟩
  · rcases hhonest.1 b' hb' with ⟨hnone, -⟩ | ⟨f, hf, htask, -⟩
    · exact hnone
    · have hne := hbefore b' hb' b List.mem_cons_self (by simp [hf])
      exact absurd (hid htask (hround.1 b' hb')).symm hne
  · cases htask : b'.id.task with
    | timer => rfl
    | cpu => exact absurd (hid htask (hround.2.2 b' hb')) (hafter b' hb' hfail)

/-! ### Play-throughs -/

/-- The host starts the machine, waits, stops it, and the stop has returned.  Threads take their
turns all along. -/
structure Playthrough (r₀ : Player) (moves : List Move) (r : Player) : Prop where
  calls : ∃ mid late, moves = .call .resume :: (mid ++ .call .suspend :: late) ∧
    (∀ m ∈ mid, m.isCall = false) ∧ ∀ m ∈ late, m.isCall = false
  steps : r₀.steps? moves = some r
  returned : r.host.isReady = true

/-- No thread drives the machine, and no call is in progress. -/
structure AtRest (r : Player) : Prop where
  orderly : Orderly r
  ready : r.host.isReady = true
  handles_eq : r.handles = []

theorem step?_resume (h : AtRest r₀) (hm : r₀.step? (.call .resume) = some r) :
    Driven r₀.round r ∧ r.vm = r₀.vm ∧ r.faults = r₀.faults := by
  have ho := step?_orderly h.orderly hm
  have hstopped : r₀.isRunning = false := by rw [isRunning, h.handles_eq]; rfl
  cases (step?_call hm).2 with
  | pass hc =>
    cases hc
    exact ⟨⟨ho, .inl ⟨rfl, rfl⟩⟩, rfl, rfl⟩
  | halt hc hrunning | already hc hrunning =>
    rw [hstopped] at hrunning
    cases hrunning
  | key hc => cases hc

namespace Playthrough

/-- What happens behind the resume that a play-through begins with. -/
theorem exists_rest (hp : Playthrough r₀ moves r) (h : AtRest r₀) :
    ∃ rest r₁, moves = .call .resume :: rest ∧ r₀.step? (.call .resume) = some r₁ ∧
      Driven r₀.round r₁ ∧ r₁.vm = r₀.vm ∧ r₁.faults = r₀.faults ∧ (∀ m ∈ rest, m.Plays) ∧
      r₁.steps? rest = some r := by
  obtain ⟨mid, late, rfl, hmid, hlate⟩ := hp.calls
  obtain ⟨r₁, h₁, h₂⟩ := steps?_cons.mp hp.steps
  obtain ⟨hd, hvm, hfaults⟩ := step?_resume h h₁
  refine ⟨_, r₁, rfl, h₁, hd, hvm, hfaults, ?_, h₂⟩
  rw [List.forall_mem_append, List.forall_mem_cons]
  exact ⟨fun m hm => .inl (hmid m hm), .inr rfl, fun m hm => .inl (hlate m hm)⟩

/-- A play-through signals the faults of the steps of its tasks. -/
theorem faults_eq (hp : Playthrough r₀ moves r) (h : AtRest r₀) :
    r.faults = r₀.faults ++ (r₀.beats moves).flatMap Beat.faults := by
  obtain ⟨rest, r₁, rfl, h₁, hd, -, hfaults, hplays, hrest⟩ := hp.exists_rest h
  rw [steps?_faults hd hplays hrest, hfaults, beats_cons h₁]
  rfl

/-- Up to the first step of a task the machine is the one it was started with. -/
theorem vm_eq_of_beats_eq_nil (hp : Playthrough r₀ moves r) (h : AtRest r₀)
    (hmoves : moves = early ++ late) (hs : r₀.steps? early = some r')
    (hnone : r₀.beats early = []) : r'.vm = { r₀.vm with state := r'.vm.state } := by
  obtain ⟨rest, r₁, rfl, h₁, hd, hvm, -, hplays, -⟩ := hp.exists_rest h
  cases early with
  | nil =>
    cases hs
    rfl
  | cons m early =>
    cases hmoves
    obtain ⟨r₂, h₂, h₃⟩ := steps?_cons.mp hs
    obtain rfl := Option.some.inj (h₁.symm.trans h₂)
    rw [beats_cons h₁] at hnone
    rw [← hvm]
    exact steps?_vm_eq hd (fun m hm => hplays m (List.mem_append_left _ hm)) h₃
      (List.append_eq_nil_iff.mp hnone).2

/-- All steps of tasks are those of the two threads of this start. -/
theorem beats_round (hp : Playthrough r₀ moves r) (h : AtRest r₀) :
    ∀ b ∈ r₀.beats moves, b.id.round = r₀.round + 1 := by
  obtain ⟨rest, r₁, rfl, h₁, hd, -, -, hplays, hrest⟩ := hp.exists_rest h
  rw [beats_cons h₁]
  exact (steps?_driven hd hplays hrest).2

/-- Wherever a play-through is, once it has begun. -/
theorem driven_of_append (hp : Playthrough r₀ moves r) (h : AtRest r₀)
    (hmoves : moves = early ++ late) (hearly : early ≠ []) (hs : r₀.steps? early = some r') :
    Driven r₀.round r' ∧ ∀ m ∈ late, m.Plays := by
  obtain ⟨rest, r₁, rfl, h₁, hd, -, -, hplays, -⟩ := hp.exists_rest h
  obtain ⟨m, early, rfl⟩ := List.exists_cons_of_ne_nil hearly
  cases hmoves
  obtain ⟨r₂, h₂, h₃⟩ := steps?_cons.mp hs
  obtain rfl := Option.some.inj (h₁.symm.trans h₂)
  obtain ⟨hplays_early, hplays_late⟩ := List.forall_mem_append.mp hplays
  exact ⟨(steps?_driven hd hplays_early h₃).1, hplays_late⟩

/-- One step that fails is the only one that does, and no instruction is executed after it: the
program stands at the end as it stood then. -/
theorem of_failure (hp : Playthrough r₀ moves r) (h : AtRest r₀)
    (hmoves : moves = early ++ m :: late) (hs : r₀.steps? early = some r') {b : Beat}
    (hb : r'.beat? m = some b) {e : Failure} (he : b.failure? = some e) :
    ∃ f, e = .fault f ∧ r'.vm.machine.fault? = some f ∧ r.faults = r₀.faults ++ [f] ∧
      r'.vm.machine.SameProgram r.vm.machine := by
  have hearly : early ≠ [] := by
    rintro rfl
    obtain ⟨rest, r₁, hrest, -⟩ := hp.exists_rest h
    rw [hrest] at hmoves
    cases hmoves
    cases hb
  obtain ⟨hd, hplays⟩ := hp.driven_of_append h hmoves hearly hs
  have hsteps := hp.steps
  rw [hmoves] at hsteps
  obtain ⟨r₁, h₁, hrest⟩ := steps?_append.mp hsteps
  obtain rfl := Option.some.inj (h₁.symm.trans hs)
  obtain ⟨r₂, hm, -⟩ := steps?_cons.mp hrest
  obtain ⟨f, rfl, hcpu, hfault, hfaults, -⟩ := fault?_of_failure hm hb he
  have hbeats : r₀.beats moves = r₀.beats early ++ b :: r₂.beats late := by
    rw [hmoves, beats_append h₁, beats_cons hm, hb]
    rfl
  have hhonest := hbeats ▸ steps?_honest hp.steps
  have hfail : b.failure? ≠ none := by simp [he]
  obtain ⟨hbefore, hafter⟩ := clear_and_timer_of_failure hhonest (hbeats ▸ hp.beats_round h)
    (hbeats ▸ beats_pairwise h.orderly hp.steps) hcpu hfail
  rw [List.forall_mem_append, List.forall_mem_cons] at hhonest
  refine ⟨f, rfl, hfault, ?_, ?_⟩
  · have hlater : ∀ b' ∈ r₂.beats late, b'.failure? = none := by
      intro b' hb'
      exact timer_of_honest (hhonest.2.2 b' hb') (hafter b' hb')
    rw [hp.faults_eq h, hbeats, List.flatMap_append, List.flatMap_cons, hfaults,
      faults_of_clear hhonest.1 hbefore, faults_of_clear hhonest.2.2 hlater]
    rfl
  · refine steps?_sameProgram hd hplays hrest ?_
    rw [beats_cons hm, hb]
    exact List.forall_mem_cons.mpr ⟨.inr hfail, fun b' hb' => .inl (hafter b' hb')⟩

end Playthrough

end Player

end ChipEight
