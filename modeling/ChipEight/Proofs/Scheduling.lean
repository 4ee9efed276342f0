import ChipEight.Proofs.Orderly

/-!
# ChipEight.Proofs.Scheduling — safety of the two threads

Main statement: however host and threads take turns, between calls there is no thread or there are
the two of one start, a thread that failed does nothing more, and a machine that was stopped is left
alone until it is started again (`scheduling_safe`).
-/

namespace ChipEight

/-- The signal tells of a fault. -/
def Signal.isError : Signal → Bool
  | .error _ => true
  | _ => false

/-- The signals that a thread sent, in order. -/
def Beat.signalsOf (id : ThreadId) (beats : List Beat) : List Signal :=
  (beats.filter fun b => b.id = id).flatMap Beat.signals

/-- How many steps a thread in its loop is before the next step of its task. -/
def Phase.ahead : Phase → Nat
  | .starting => 2
  | .checking => 1
  | .stepping | .stopping | .finished => 0

namespace Player

variable {r r' : Player} {m : Move} {id : ThreadId}

/-! ### Failures -/

/-- Every step of a task sends as many errors as it has failures, and only the processor's fail. -/
theorem step?_beat (hm : r.step? m = some r') {b : Beat} (hb : r.beat? m = some b) :
    b.signals.countP Signal.isError = b.failure?.toList.length ∧
      (b.id.task = .timer → b.failure? = none) := by
  cases m with
  | call | host => cases hb
  | thread id random =>
    obtain ⟨phase, phase', hw⟩ := threadStep?_went hm
    have hadvance := hw.advance
    rw [hb] at hadvance
    cases hadvance with
    | beat clear =>
      refine ⟨?_, fun _ => rfl⟩
      rw [Option.toList_none, List.length_nil, List.countP_eq_zero]
      intro s hs herror
      cases s with
      | error f => exact clear f hs
      | redraw | beep => cases herror
    | fail cpu f => exact ⟨rfl, fun htimer => by rw [cpu] at htimer; cases htimer⟩

/-- The thread of the processor is out of its loop, or gone, and no thread of that name is spawned
any more. -/
structure Retired (id : ThreadId) (r : Player) : Prop where
  cpu : id.task = .cpu
  spawned : id.round < r.round ∨ id.round = r.round ∧ r.host ≠ .spawning .cpu
  out : ∀ t ∈ r.threads, t.id = id → t.phase.loops = false

theorem step?_retired (h : Retired id r) (hm : r.step? m = some r') :
    Retired id r' ∧ ∀ b ∈ r.beat? m, b.id ≠ id := by
  obtain ⟨hcpu, hspawned, hout⟩ := h
  have hround (host : HostPhase) (hhost : host ≠ .spawning .cpu) :
      id.round < r.round ∨ id.round = r.round ∧ host ≠ .spawning .cpu :=
    hspawned.imp_right fun h => ⟨h.1, hhost⟩
  cases m with
  | call c =>
    refine ⟨?_, nofun⟩
    cases (step?_call hm).2 with
    | halt | already | key => exact ⟨hcpu, hround _ nofun, hout⟩
    | pass => exact ⟨hcpu, hround _ HostPhase.ofSequel_ne_spawning, hout⟩
  | host =>
    refine ⟨?_, nofun⟩
    cases hostStep?_went hm with
    | gone | load | resume => exact ⟨hcpu, hround _ nofun, hout⟩
    | settle => exact ⟨hcpu, hround _ HostPhase.ofSequel_ne_spawning, hout⟩
    | join hhost hh hf =>
      refine ⟨hcpu, hround _ (by rw [hhost]; nofun), fun t ht => ?_⟩
      exact hout t (List.mem_of_mem_filter ht)
    | raise =>
      refine ⟨hcpu, .inl ?_, hout⟩
      show id.round < r.round + 1
      omega
    | spawnCpu hhost =>
      refine ⟨hcpu, hround _ nofun, fun t ht htid => ?_⟩
      rcases mem_of_mem_spawn ht with ht | rfl
      · exact hout t ht htid
      · -- the new thread is of a later start
        rw [← htid] at hspawned
        simp [hhost] at hspawned
    | spawnTimer hhost =>
      refine ⟨hcpu, hround _ nofun, fun t ht htid => ?_⟩
      rcases mem_of_mem_spawn ht with ht | rfl
      · exact hout t ht htid
      · rw [← htid] at hcpu
        cases hcpu
  | thread other random =>
    obtain ⟨phase, phase', hw⟩ := threadStep?_went hm
    generalize r.beat? (.thread other random) = beat at hw ⊢
    refine ⟨⟨hcpu, hw.round_eq ▸ hw.host_eq ▸ hspawned, fun t ht htid => ?_⟩, fun b hb hbid => ?_⟩
    · rcases hw.eq_or_mem ht with rfl | ⟨-, ht⟩
      · have hbefore := hout _ hw.mem_before htid
        cases hw.advance with
        | start | enter | leave | beat | fail => cases hbefore
        | finish => rfl
      · exact hout t ht htid
    · have hbefore := hout _ hw.mem_before ((hw.beat_id hb).symm.trans hbid)
      cases hw.advance with
      | beat | fail => cases hbefore
      | start | enter | leave | finish => cases hb

/-- A thread that failed does nothing more. -/
theorem retired_of_failure (ho : Orderly r) (hm : r.step? m = some r') {b : Beat}
    (hb : r.beat? m = some b) (hf : b.failure? ≠ none) : Retired b.id r' := by
  cases m with
  | call | host => cases hb
  | thread id random =>
    obtain ⟨phase, phase', hw⟩ := threadStep?_went hm
    have hround := ho.id_round hw.mem_before
    have hhost : r.host ≠ .spawning .cpu := by
      intro hhost
      have hnone := ho.threads_eq_nil (ho.handles_eq_nil hhost rfl)
      have hmem := hw.mem_before
      rw [hnone] at hmem
      cases hmem
    rw [hb] at hw
    cases hw.advance with
    | beat => exact absurd rfl hf
    | fail cpu f =>
      refine ⟨cpu, .inr ⟨hround.trans hw.round_eq.symm, hw.host_eq ▸ hhost⟩, fun t ht htid => ?_⟩
      rcases hw.eq_or_mem ht with rfl | ⟨hne, -⟩
      · rfl
      · exact absurd htid hne

/-- No thread does anything after its first failure. -/
theorem beats_pairwise (ho : Orderly r) {moves : List Move} (hs : r.steps? moves = some r') :
    (r.beats moves).Pairwise fun b late => b.failure? ≠ none → late.id ≠ b.id := by
  induction moves generalizing r with
  | nil => exact .nil
  | cons m ms ih =>
    obtain ⟨r₁, h₁, h₂⟩ := steps?_cons.mp hs
    rw [beats_cons h₁, List.pairwise_append]
    refine ⟨?_, ih (step?_orderly ho h₁) h₂, fun b hb late hlate hf => ?_⟩
    · cases r.beat? m with
      | none => exact .nil
      | some b => exact List.pairwise_singleton _ b
    · have hretired := retired_of_failure ho h₁ (Option.mem_toList.mp hb) hf
      refine (steps?_steady (I := Retired b.id) (A := fun _ => True)
        (Q := fun late => late.id ≠ b.id) ?_ hretired (fun _ _ => trivial) h₂).2 late hlate
      intro now m after hnow _ hm
      exact step?_retired hnow hm

/-- Among steps of tasks each of which sends as many errors as it has failures, and none of which
comes after a failure of the same thread, a thread sends at most one error. -/
theorem countP_signalsOf_le {beats : List Beat}
    (hcount : ∀ b ∈ beats, b.signals.countP Signal.isError = b.failure?.toList.length)
    (hfail : beats.Pairwise fun b late => b.failure? ≠ none → late.id ≠ b.id) (id : ThreadId) :
    (Beat.signalsOf id beats).countP Signal.isError ≤ 1 := by
  induction beats with
  | nil => simp [Beat.signalsOf]
  | cons b beats ih =>
    rw [List.forall_mem_cons] at hcount
    rw [List.pairwise_cons] at hfail
    have hrest := ih hcount.2 hfail.2
    by_cases hid : b.id = id
    · have hcons : Beat.signalsOf id (b :: beats) = b.signals ++ Beat.signalsOf id beats := by
        simp [Beat.signalsOf, hid]
      rw [hcons, List.countP_append, hcount.1]
      cases hf : b.failure? with
      | none => simpa using hrest
      | some f =>
        -- nothing of this thread comes later
        have hnone : beats.filter (fun b => b.id = id) = [] := by
          rw [List.filter_eq_nil_iff]
          intro late hlate hlid
          exact hfail.1 late hlate (by simp [hf]) ((of_decide_eq_true hlid).trans hid.symm)
        simp [Beat.signalsOf, hnone]
    · have hcons : Beat.signalsOf id (b :: beats) = Beat.signalsOf id beats := by
        simp [Beat.signalsOf, hid]
      rw [hcons]
      exact hrest

/-! ### Ticks -/

/-- By moves of this thread alone, with `n` steps of its task among them, `r` comes to `r'`. -/
def GoesOn (id : ThreadId) (n : Nat) (r r' : Player) : Prop :=
  ∃ moves, (∀ m ∈ moves, m = .thread id 0) ∧ r.steps? moves = some r' ∧
    (r.beats moves).map Beat.id = List.replicate n id

namespace GoesOn

theorem refl (id : ThreadId) (r : Player) : GoesOn id 0 r r := ⟨[], nofun, rfl, rfl⟩

theorem of_step {beat : Option Beat} {n : Nat} (h : r.step? (.thread id 0) = some r')
    (hb : r.beat? (.thread id 0) = beat) (hn : beat.toList.map Beat.id = List.replicate n id) :
    GoesOn id n r r' := by
  refine ⟨[.thread id 0], by simp, steps?_cons.mpr ⟨r', h, rfl⟩, ?_⟩
  rw [beats_cons h, hb, beats_nil, List.append_nil, hn]

theorem trans {n k : Nat} {r'' : Player} (h : GoesOn id n r r') (h' : GoesOn id k r' r'') :
    GoesOn id (n + k) r r'' := by
  obtain ⟨moves, hmoves, hs, hb⟩ := h
  obtain ⟨moves', hmoves', hs', hb'⟩ := h'
  refine ⟨moves ++ moves', ?_, steps?_append.mpr ⟨r', hs, hs'⟩, ?_⟩
  · exact List.forall_mem_append.mpr ⟨hmoves, hmoves'⟩
  · rw [beats_append hs, List.map_append, hb, hb', List.replicate_append_replicate]

end GoesOn

/-- While the flag is up, the timers' thread in its loop goes on by itself, up to its next tick. -/
theorem exists_tick {phase : Phase} (hup : r.running = true) (hid : id.task = .timer)
    (h : r.phase? id = some phase) (hloops : phase.loops = true) :
    ∃ r', GoesOn id 1 r r' ∧ r'.running = true ∧ r'.phase? id = some .checking := by
  induction hn : phase.ahead using Nat.strongRecOn generalizing r phase with
  | ind n ih =>
    have hp : phase ≠ .finished := by
      rintro rfl
      cases hloops
    obtain ⟨r₁, h₁⟩ := exists_threadStep? h hp 0
    obtain ⟨before, after, hw⟩ := threadStep?_went h₁
    obtain rfl := Option.some.inj (hw.phase_eq.symm.trans h)
    have hup₁ := hw.running_eq.trans hup
    generalize hbeat : r.beat? (.thread id 0) = beat at hw
    have hafter := hw.phase?_eq
    cases hw.advance with
    | start | enter =>
      obtain ⟨r', hon, hup', hphase⟩ := ih _ (hn ▸ Nat.lt_succ_self _) hup₁ hafter rfl rfl
      exact ⟨r', (GoesOn.of_step h₁ hbeat rfl).trans hon, hup', hphase⟩
    | leave down =>
      rw [hup] at down
      cases down
    | beat => exact ⟨r₁, .of_step h₁ hbeat rfl, hup₁, hafter⟩
    | fail cpu =>
      rw [hid] at cpu
      cases cpu
    | finish => cases hloops

/-- And so it does any number of times. -/
theorem exists_ticks {phase : Phase} (hup : r.running = true) (hid : id.task = .timer)
    (h : r.phase? id = some phase) (hloops : phase.loops = true) (n : Nat) :
    ∃ r', GoesOn id n r r' := by
  induction n generalizing r phase with
  | zero => exact ⟨r, .refl id r⟩
  | succ n ih =>
    obtain ⟨r₁, htick, hup₁, hphase⟩ := exists_tick hup hid h hloops
    obtain ⟨r', hticks⟩ := ih hup₁ hphase rfl
    exact ⟨r', Nat.add_comm 1 n ▸ htick.trans hticks⟩

/-- While the flag is up, the timers' threads are in their loops. -/
theorem looping_timer_of_steps {vm : Vm} {moves : List Move}
    (h : (new vm).steps? moves = some r) : Looping (fun id => id.task = .timer) r := by
  refine (steps?_invariant (I := fun now => Orderly now ∧ Looping (fun id => id.task = .timer) now)
    ?_ ⟨orderly_new vm, nofun⟩ h).2
  intro now m after ⟨ho, hl⟩ hm
  refine ⟨step?_orderly ho hm, step?_looping ho hl ?_ hm⟩
  intro b hb htimer
  exact (step?_beat hm hb).2 htimer

theorem exists_timer_phase {vm : Vm} {moves : List Move} (h : (new vm).steps? moves = some r)
    (hready : r.host.isReady = true) (hup : r.running = true) :
    ∃ phase, r.phase? ⟨r.round, .timer⟩ = some phase ∧ phase.loops = true := by
  have ho := orderly_of_steps h
  have htimer : ⟨r.round, .timer⟩ ∈ r.handles := by
    rw [ho.eq_crew hready hup]
    exact List.mem_cons_of_mem _ (.head _)
  obtain ⟨phase, hphase⟩ := ho.exists_phase? htimer
  have hloops := looping_timer_of_steps h hup ⟨_, phase⟩ (mem_of_phase? hphase) rfl
  exact ⟨phase, hphase, hloops⟩

/-- However host and threads take turns: the threads there are were all spawned by the last start,
and between calls there is none or the two of it; a thread, which signals and touches the machine in
steps of its task only, takes none after its first failure, so it sends at most one error, while the
timers' thread can go on; and once a suspend or a load has returned, no thread takes such a step
until a resume. -/
theorem scheduling_safe (vm : Vm) (moves : List Move) (r : Player)
    (h : (new vm).steps? moves = some r) :
    (r.threads.map Thread.id = r.handles ∧ (∀ t ∈ r.threads, t.id.round = r.round) ∧
      (r.host.isReady = true →
        r.handles = [] ∨ r.handles = [⟨r.round, .cpu⟩, ⟨r.round, .timer⟩])) ∧
    ((∀ id random r', r.step? (.thread id random) = some r' →
        r'.signals = r.signals ++ (r.beat? (.thread id random)).elim [] Beat.signals ∧
        (r.beat? (.thread id random) = none → r'.vm = r.vm)) ∧
      ((new vm).beats moves).Pairwise (fun b late => b.failure? ≠ none → late.id ≠ b.id) ∧
      (∀ id, (Beat.signalsOf id ((new vm).beats moves)).countP Signal.isError ≤ 1) ∧
      (r.host.isReady = true → r.isRunning = true →
        ∀ n, ∃ r', GoesOn ⟨r.round, .timer⟩ n r r')) ∧
    ∀ c mid r₁ late r₂, c = .suspend ∨ (∃ program, c = .load program) →
      (∀ m ∈ mid, m.isCall = false) → r.steps? (.call c :: mid) = some r₁ →
      r₁.host.isReady = true → (∀ m ∈ late, m ≠ .call .resume) → r₁.steps? late = some r₂ →
      r₁.beats late = [] := by
  have ho := orderly_of_steps h
  have hfail := beats_pairwise (orderly_new vm) h
  refine ⟨⟨ho.ids_eq, fun t => ho.id_round, fun hready => ?_⟩, ⟨?_, hfail, fun id => ?_, ?_⟩, ?_⟩
  · exact (ho.ready hready).imp And.right And.right
  · intro id random r' hm
    obtain ⟨phase, phase', hw⟩ := threadStep?_went hm
    exact ⟨hw.signals_eq, hw.vm_eq⟩
  · refine countP_signalsOf_le ?_ hfail id
    refine (steps?_steady (I := fun _ => True) (A := fun _ => True) ?_ trivial
      (fun _ _ => trivial) h).2
    intro now m after _ _ hm
    exact ⟨trivial, fun b hb => (step?_beat hm hb).1⟩
  · intro hready hrunning n
    have hup : r.running = true := (ho.isRunning_eq hready).symm.trans hrunning
    obtain ⟨phase, hphase, hloops⟩ := exists_timer_phase h hready hup
    exact exists_ticks hup rfl hphase hloops n
  · intro c mid r₁ late r₂ hc hmid hs hready hlate hs'
    have hstops : c.stops = true := by
      rcases hc with rfl | ⟨program, rfl⟩ <;> rfl
    have ho₁ : Orderly r₁ := steps?_invariant (fun _ _ _ => step?_orderly) ho hs
    have hhalting := halting_of_call ho hstops hmid hs
    exact beats_eq_nil ho₁ hhalting (ho₁.eq_nil hready hhalting.1) hlate hs'

/-- A program that returns without a call: the processor's thread fails at once and comes to its
end, and the timers' thread ticks on. -/
theorem scheduling_safe_failed :
    let vm := (Vm.new {}).installed [0x00, 0xEE]
    let moves := opening ++ [.thread ⟨1, .cpu⟩ 0, .thread ⟨1, .cpu⟩ 0]
    ∃ r, (new vm).steps? moves = some r ∧ r.phase? ⟨1, .cpu⟩ = some .finished ∧
      ((new vm).beats moves).map Beat.failure? = [some (.fault .stackUnderflow)] ∧
      ∀ n, ∃ r', GoesOn ⟨1, .timer⟩ n r r' := by
  intro vm moves
  have hf : vm.machine.fault? = some .stackUnderflow := Vm.fault?_installed_ret _ _
  clear_value vm
  obtain ⟨signals, log, hs, hb⟩ := exists_failed hf #[]
  let r := startedOnce vm.resume.vm .finished .starting signals (log.push (.taskStopped .cpu))
  have hs' : (new vm).steps? moves = some r := by
    show (new vm).steps? ((opening ++ [_]) ++ [_]) = _
    exact steps?_append.mpr ⟨_, hs, rfl⟩
  obtain ⟨-, ⟨-, -, -, hgo⟩, -⟩ := scheduling_safe vm moves r hs'
  refine ⟨r, hs', rfl, ?_, hgo rfl rfl⟩
  show ((resting vm #[]).beats ((opening ++ [_]) ++ [_])).map Beat.failure? = _
  rw [beats_append hs, hb]
  rfl

end Player

end ChipEight
