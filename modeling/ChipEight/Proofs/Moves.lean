import ChipEight.Player.Step
import ChipEight.Proofs.Frame

/-!
# ChipEight.Proofs.Moves — what a move can be, and what moves keep

What the begin of a call, a step of the call and a step of a thread can be is said once
(`begin_begun`, `hostStep?_went`, `threadStep?_went`), and invariants are proved by these cases.  A
`Beat` is one step of a task, and `beats` lists those that a list of moves made.  `steps?_steady`
lifts what one move keeps to any list of moves.
-/

namespace ChipEight

/-- The thread is in its loop. -/
def Phase.loops : Phase → Bool
  | .starting | .checking | .stepping => true
  | .stopping | .finished => false

/-- How the operation failed, if it did. -/
def Outcome.failure? (o : Outcome (Except Failure α)) : Option Failure :=
  match o.result with
  | .ok _ => none
  | .error e => some e

/-- One step of a task: whose it was, how it failed if it did, and what it told the host. -/
structure Beat where
  id : ThreadId
  failure? : Option Failure
  signals : List Signal

/-- How a thread goes on, while the flag is as given: the phase before, the step of the task if
there is one, and the phase after. -/
inductive Advance (running : Bool) (id : ThreadId) : Phase → Option Beat → Phase → Prop
  | start : Advance running id .starting none .checking
  | enter (up : running = true) : Advance running id .checking none .stepping
  | leave (down : running = false) : Advance running id .checking none .stopping
  | beat {signals : List Signal} (clear : ∀ f, .error f ∉ signals) :
      Advance running id .stepping (some ⟨id, none, signals⟩) .checking
  | fail (cpu : id.task = .cpu) (f : Fault) :
      Advance running id .stepping (some ⟨id, some (.fault f), [.error f]⟩) .stopping
  | finish : Advance running id .stopping none .finished

/-- The move is the begin of a call. -/
def Move.isCall : Move → Bool
  | .call _ => true
  | _ => false

theorem ne_resume_of_not_call {m : Move} (h : m.isCall = false) : m ≠ .call .resume := by
  rintro rfl
  cases h

/-- What the call goes on with once the machine is stopped, if it stops the machine at all. -/
def Call.sequel? : Call → Option Sequel
  | .load program => some (.load program)
  | .resume => some .start
  | .suspend => some .nothing
  | .keyDown _ | .keyUp _ => none

namespace Player

variable {r r' : Player} {id : ThreadId} {random : UInt8}

/-- The step of a task that a move is. -/
def beat? (r : Player) : Move → Option Beat
  | .thread id random =>
    if r.phase? id = some .stepping then
      match id.task with
      | .cpu => some ⟨id, (r.vm.cycle random).failure?, (r.vm.cycle random).signals⟩
      | .timer => some ⟨id, none, r.vm.tick.signals⟩
    else none
  | _ => none

/-- The steps of tasks that a list of moves made, in order. -/
def beats (r : Player) : List Move → List Beat
  | [] => []
  | m :: ms => (r.beat? m).toList ++ (r.step? m).elim [] fun r' => r'.beats ms

/-- A thread went on from `r` to `r'`.  The host sees nothing of it but the step of the task. -/
structure Went (r : Player) (id : ThreadId) (phase : Phase) (beat? : Option Beat) (phase' : Phase)
    (r' : Player) : Prop where
  phase_eq : r.phase? id = some phase
  advance : Advance r.running id phase beat? phase'
  threads_eq : r'.threads = r.threads.map fun t => if t.id = id then ⟨id, phase'⟩ else t
  running_eq : r'.running = r.running
  handles_eq : r'.handles = r.handles
  round_eq : r'.round = r.round
  host_eq : r'.host = r.host
  vm_eq : beat? = none → r'.vm = r.vm
  isPlaying_eq : r'.vm.isPlaying = r.vm.isPlaying
  signals_eq : r'.signals = r.signals ++ beat?.elim [] Beat.signals

/-- The host began a call.  One that stops the machine takes the flag down if there is anything to
stop; a resume does so only if it finds a thread at its end. -/
inductive Begun (r : Player) (c : Call) : Player → Prop
  | halt {sequel : Sequel} (sequel_eq : c.sequel? = some sequel) (running : r.isRunning = true)
      (finished : c = .resume → r.handles.any r.isFinished = true) :
      Begun r c { r with running := false, host := .joining sequel }
  | pass {sequel : Sequel} (sequel_eq : c.sequel? = some sequel) (stopped : r.isRunning = false) :
      Begun r c { r with host := .ofSequel sequel }
  | already (call_eq : c = .resume) (running : r.isRunning = true)
      (unfinished : r.handles.any r.isFinished = false) :
      Begun r c { r with host := .ready (.ok ()) }
  | key {o : Outcome Unit} (sequel_eq : c.sequel? = none)
      (playing : o.vm.isPlaying = r.vm.isPlaying) :
      Begun r c { r.absorb o with host := .ready (.ok ()) }

/-- The host's call went on. -/
inductive HostWent (r : Player) : Player → Prop
  | gone {sequel : Sequel} (host : r.host = .joining sequel) (handles : r.handles = []) :
      HostWent r { r with host := .settling sequel }
  | join {sequel : Sequel} {id : ThreadId} {rest : List ThreadId}
      (host : r.host = .joining sequel) (handles : r.handles = id :: rest)
      (finished : r.isFinished id = true) :
      HostWent r { r with handles := rest, threads := r.threads.filter fun t => t.id ≠ id }
  | settle {sequel : Sequel} (host : r.host = .settling sequel) :
      HostWent r { r.absorb r.vm.suspend with host := .ofSequel sequel }
  | load {program : List UInt8} (host : r.host = .loading program) :
      HostWent r
        { r.absorb (r.vm.load program) with host := .ready (r.vm.load program).result }
  | resume (host : r.host = .resuming) :
      HostWent r { r.absorb r.vm.resume with host := .raising }
  | raise (host : r.host = .raising) :
      HostWent r { r with running := true, round := r.round + 1, host := .spawning .cpu }
  | spawnCpu (host : r.host = .spawning .cpu) :
      HostWent r { r.spawn .cpu with host := .spawning .timer }
  | spawnTimer (host : r.host = .spawning .timer) :
      HostWent r { r.spawn .timer with host := .ready (.ok ()) }

/-! ### Steps of the host -/

theorem stopThen_begun {c : Call} {sequel : Sequel} (hc : c.sequel? = some sequel)
    (hf : c = .resume → r.handles.any r.isFinished = true) : Begun r c (r.stopThen sequel) := by
  rw [stopThen]
  cases hr : r.isRunning with
  | true => exact .halt hc hr hf
  | false => exact .pass hc hr

theorem begin_begun (r : Player) (c : Call) : Begun r c (r.begin c) := by
  cases c with
  | load program => exact stopThen_begun rfl nofun
  | suspend => exact stopThen_begun rfl nofun
  | keyDown k => exact .key rfl rfl
  | keyUp k => exact .key rfl rfl
  | resume =>
    simp only [begin]
    cases hf : r.handles.any r.isFinished with
    | true => exact stopThen_begun rfl fun _ => hf
    | false =>
      cases hr : r.isRunning with
      | true => exact .already rfl hr hf
      | false =>
        show Begun r .resume { r with host := .ofSequel .start }
        exact .pass rfl hr

theorem hostStep?_went (h : r.hostStep? = some r') : HostWent r r' := by
  unfold hostStep? at h
  split at h
  · cases h
  · next hhost =>
    split at h
    · next hhandles =>
      cases h
      exact .gone hhost hhandles
    · next hhandles =>
      split at h
      · next hf =>
        cases h
        exact .join hhost hhandles hf
      · cases h
  · next hhost =>
    cases h
    exact .settle hhost
  · next hhost =>
    cases h
    exact .load hhost
  · next hhost =>
    cases h
    exact .resume hhost
  · next hhost =>
    cases h
    exact .raise hhost
  · next hhost =>
    cases h
    exact .spawnCpu hhost
  · next hhost =>
    cases h
    exact .spawnTimer hhost

theorem mem_of_mem_spawn {task : Task} {t : Thread} (ht : t ∈ (r.spawn task).threads) :
    t ∈ r.threads ∨ t = ⟨⟨r.round, task⟩, .starting⟩ :=
  (List.mem_append.mp ht).imp_right List.mem_singleton.mp

/-! ### Steps of threads -/

theorem beat?_of_ne_stepping (h : r.phase? id ≠ some .stepping) (random : UInt8) :
    r.beat? (.thread id random) = none := by
  rw [beat?, if_neg h]

theorem mem_of_phase? {phase : Phase} (h : r.phase? id = some phase) : ⟨id, phase⟩ ∈ r.threads := by
  obtain ⟨t, ht, rfl⟩ := Option.map_eq_some_iff.mp h
  have hid : t.id = id := by simpa using List.find?_some ht
  rw [← hid]
  exact List.mem_of_find?_eq_some ht

/-- A step of the task, as the beat and the phase after it. -/
theorem taskStep_went (h : r.phase? id = some .stepping) (random : UInt8) :
    ∃ phase', Went r id .stepping (r.beat? (.thread id random)) phase' (r.taskStep id random) := by
  obtain ⟨round, task⟩ := id
  cases task with
  | timer =>
    have hclear : ∀ f, Signal.error f ∉ r.vm.tick.signals := by
      intro f hf
      simp only [Vm.tick, List.mem_append] at hf
      rcases hf with hf | hf <;> split at hf <;> simp at hf
    have hbeat : r.beat? (.thread ⟨round, .timer⟩ random) =
        some ⟨⟨round, .timer⟩, none, r.vm.tick.signals⟩ := by rw [beat?, if_pos h]
    rw [hbeat]
    exact ⟨.checking, h, .beat hclear, rfl, rfl, rfl, rfl, rfl, nofun, rfl, rfl⟩
  | cpu =>
    have hbeat : r.beat? (.thread ⟨round, .cpu⟩ random) =
        some ⟨⟨round, .cpu⟩, (r.vm.cycle random).failure?, (r.vm.cycle random).signals⟩ := by
      rw [beat?, if_pos h]
    have hplaying := (Vm.cycle_quiet r.vm random).1
    rw [hbeat]
    cases hf : r.vm.machine.fault? with
    | some f =>
      have hr := Vm.cycle_of_fault hf random
      have hfail : (r.vm.cycle random).failure? = some (.fault f) := by
        rw [Outcome.failure?, hr.result_eq]
      refine ⟨.stopping, h, ?_, ?_, rfl, rfl, rfl, rfl, nofun, hplaying, rfl⟩
      · rw [hfail, hr.signals_eq]
        exact .fail rfl f
      · simp only [taskStep, hr.result_eq]
        rfl
    | none =>
      obtain ⟨i, e, after, target, -, -, -, -, hc⟩ := Vm.cycle_of_clear hf random
      refine ⟨.checking, h, ?_, ?_, rfl, rfl, rfl, rfl, nofun, hplaying, rfl⟩
      · rw [hc]
        exact .beat nofun
      · rw [taskStep, hc]
        rfl

/-- All that a step of a thread can be. -/
theorem threadStep?_went (h : r.threadStep? id random = some r') :
    ∃ phase phase', Went r id phase (r.beat? (.thread id random)) phase' r' := by
  unfold threadStep? at h
  split at h
  · cases h
  · cases h
  · next hp =>
    cases h
    rw [beat?_of_ne_stepping (by simp [hp])]
    exact ⟨_, _, hp, .start, rfl, rfl, rfl, rfl, rfl, fun _ => rfl, rfl, by simp [setPhase, note]⟩
  · next hp =>
    cases h
    rw [beat?_of_ne_stepping (by simp [hp])]
    cases hr : r.running with
    | true =>
      exact ⟨_, _, hp, .enter hr, rfl, rfl, rfl, rfl, rfl, fun _ => rfl, rfl, by simp [setPhase]⟩
    | false =>
      exact ⟨_, _, hp, .leave hr, rfl, rfl, rfl, rfl, rfl, fun _ => rfl, rfl, by simp [setPhase]⟩
  · next hp =>
    cases h
    obtain ⟨phase', hw⟩ := taskStep_went hp random
    exact ⟨_, phase', hw⟩
  · next hp =>
    cases h
    rw [beat?_of_ne_stepping (by simp [hp])]
    exact ⟨_, _, hp, .finish, rfl, rfl, rfl, rfl, rfl, fun _ => rfl, rfl, by simp [setPhase, note]⟩

theorem exists_threadStep? {phase : Phase} (h : r.phase? id = some phase) (hp : phase ≠ .finished)
    (random : UInt8) : ∃ r', r.step? (.thread id random) = some r' := by
  show ∃ r', r.threadStep? id random = some r'
  rw [threadStep?, h]
  cases phase with
  | finished => exact absurd rfl hp
  | starting | checking | stepping | stopping => exact ⟨_, rfl⟩

namespace Went

variable {phase phase' : Phase} {beat : Option Beat}

theorem ids_eq (h : Went r id phase beat phase' r') :
    r'.threads.map Thread.id = r.threads.map Thread.id := by
  rw [h.threads_eq, List.map_map]
  refine List.map_congr_left fun t _ => ?_
  by_cases ht : t.id = id
  · simp [ht]
  · simp [ht]

/-- The threads afterwards: the one that went on, and all others as they were. -/
theorem eq_or_mem (h : Went r id phase beat phase' r') {t : Thread} (ht : t ∈ r'.threads) :
    t = ⟨id, phase'⟩ ∨ t.id ≠ id ∧ t ∈ r.threads := by
  rw [h.threads_eq, List.mem_map] at ht
  obtain ⟨u, hu, rfl⟩ := ht
  by_cases hid : u.id = id
  · rw [if_pos hid]
    exact .inl rfl
  · rw [if_neg hid]
    exact .inr ⟨hid, hu⟩

theorem mem_before (h : Went r id phase beat phase' r') : ⟨id, phase⟩ ∈ r.threads :=
  mem_of_phase? h.phase_eq

theorem phase?_eq (h : Went r id phase beat phase' r') : r'.phase? id = some phase' := by
  have hmem := h.mem_before
  rw [phase?, h.threads_eq]
  generalize r.threads = threads at hmem
  induction threads with
  | nil => cases hmem
  | cons t threads ih =>
    by_cases ht : t.id = id
    · simp [ht]
    · have hrest : ⟨id, phase⟩ ∈ threads :=
        (List.mem_cons.mp hmem).resolve_left fun heq => ht (heq ▸ rfl)
      simpa [ht] using ih hrest

/-- A step of the task was made by the thread that went on. -/
theorem beat_id (h : Went r id phase beat phase' r') {b : Beat} (hb : beat = some b) :
    b.id = id := by
  subst hb
  cases h.advance <;> rfl

end Went

/-! ### Lists of moves -/

theorem step?_call {c : Call} (h : r.step? (.call c) = some r') :
    r.host.isReady = true ∧ Begun r c r' := by
  obtain ⟨hready, hbegin⟩ := Option.ite_none_right_eq_some.mp h
  cases hbegin
  exact ⟨hready, begin_begun r c⟩

@[simp] theorem steps?_nil (r : Player) : r.steps? [] = some r := rfl

theorem steps?_cons {m : Move} {ms : List Move} :
    r.steps? (m :: ms) = some r' ↔ ∃ r₁, r.step? m = some r₁ ∧ r₁.steps? ms = some r' :=
  Option.bind_eq_some_iff

theorem steps?_append {early late : List Move} :
    r.steps? (early ++ late) = some r' ↔
      ∃ r₁, r.steps? early = some r₁ ∧ r₁.steps? late = some r' := by
  induction early generalizing r with
  | nil => simp
  | cons m early ih =>
    simp only [List.cons_append, steps?_cons, ih]
    constructor
    · rintro ⟨r₁, h₁, r₂, h₂, h₃⟩
      exact ⟨r₂, ⟨r₁, h₁, h₂⟩, h₃⟩
    · rintro ⟨r₂, ⟨r₁, h₁, h₂⟩, h₃⟩
      exact ⟨r₁, h₁, r₂, h₂, h₃⟩

@[simp] theorem beats_nil (r : Player) : r.beats [] = [] := rfl

theorem beats_cons {m : Move} (h : r.step? m = some r') (ms : List Move) :
    r.beats (m :: ms) = (r.beat? m).toList ++ r'.beats ms := by
  rw [beats, h]
  rfl

theorem beats_append {early late : List Move} (h : r.steps? early = some r') :
    r.beats (early ++ late) = r.beats early ++ r'.beats late := by
  induction early generalizing r with
  | nil =>
    cases h
    rfl
  | cons m early ih =>
    obtain ⟨r₁, h₁, h₂⟩ := steps?_cons.mp h
    rw [List.cons_append, beats_cons h₁, beats_cons h₁, ih h₂, List.append_assoc]

/-- If each move that `A` admits keeps `I`, as long as its step of a task is as `B` says, and makes
no step of a task but such as `Q` says, then so does a list of such moves. -/
theorem steps?_steady_of_beats {I : Player → Prop} {A : Move → Prop} {B Q : Beat → Prop}
    (step : ∀ r m r', I r → A m → (∀ b ∈ r.beat? m, B b) → r.step? m = some r' →
      I r' ∧ ∀ b ∈ r.beat? m, Q b)
    (h : I r) {moves : List Move} (hmoves : ∀ m ∈ moves, A m) (hbeats : ∀ b ∈ r.beats moves, B b)
    (hs : r.steps? moves = some r') : I r' ∧ ∀ b ∈ r.beats moves, Q b := by
  induction moves generalizing r with
  | nil =>
    cases hs
    exact ⟨h, nofun⟩
  | cons m ms ih =>
    obtain ⟨r₁, h₁, h₂⟩ := steps?_cons.mp hs
    rw [List.forall_mem_cons] at hmoves
    rw [beats_cons h₁, List.forall_mem_append] at hbeats ⊢
    simp only [Option.mem_toList] at hbeats ⊢
    obtain ⟨hi, hq⟩ := step r m r₁ h hmoves.1 hbeats.1 h₁
    obtain ⟨hi', hq'⟩ := ih hi hmoves.2 hbeats.2 h₂
    exact ⟨hi', hq, hq'⟩

/-- The same whatever the steps of tasks are. -/
theorem steps?_steady {I : Player → Prop} {A : Move → Prop} {Q : Beat → Prop}
    (step : ∀ r m r', I r → A m → r.step? m = some r' → I r' ∧ ∀ b ∈ r.beat? m, Q b)
    (h : I r) {moves : List Move} (hmoves : ∀ m ∈ moves, A m) (hs : r.steps? moves = some r') :
    I r' ∧ ∀ b ∈ r.beats moves, Q b :=
  steps?_steady_of_beats (B := fun _ => True) (fun r m r' hi ha _ hm => step r m r' hi ha hm) h
    hmoves (fun _ _ => trivial) hs

/-- The same with no word on the steps of tasks. -/
theorem steps?_kept {I : Player → Prop} {A : Move → Prop}
    (step : ∀ r m r', I r → A m → r.step? m = some r' → I r') (h : I r) {moves : List Move}
    (hmoves : ∀ m ∈ moves, A m) (hs : r.steps? moves = some r') : I r' :=
  (steps?_steady (Q := fun _ => True)
    (fun r m r' hi ha hm => ⟨step r m r' hi ha hm, fun _ _ => trivial⟩) h hmoves hs).1

/-- The same for moves of any kind. -/
theorem steps?_invariant {I : Player → Prop} (step : ∀ r m r', I r → r.step? m = some r' → I r')
    (h : I r) {moves : List Move} (hs : r.steps? moves = some r') : I r' :=
  steps?_kept (A := fun _ => True) (fun r m r' hi _ hm => step r m r' hi hm) h
    (fun _ _ => trivial) hs

end Player

end ChipEight
