import ChipEight.Proofs.Scheduling

/-!
# ChipEight.Proofs.Restart — when a resume restarts a failed machine

A resume looks for a thread that has come to its end, and restarts both threads if it finds one.  A
thread whose instruction failed is out of its loop before it is at its end, and a resume that falls
in between finds nothing to do.  Main statements: a resume restarts both threads unless it falls
there (`resume_restarts`), and one that does is lost (`resume_lost`).
-/

namespace ChipEight

/-- The call in progress is still to raise the flag. -/
def HostPhase.starts : HostPhase → Bool
  | .joining sequel | .settling sequel => sequel == .start
  | .resuming | .raising => true
  | .ready _ | .loading _ | .spawning _ => false

theorem HostPhase.starts_ofSequel (sequel : Sequel) :
    (ofSequel sequel).starts = (sequel == .start) := by
  cases sequel <;> rfl

namespace Player

variable {r r' : Player} {m : Move} {vm : Vm} {moves mid : List Move}

/-! ### A resume that restarts -/

/-- The flag is up, or the call in progress raises it. -/
def Starting (r : Player) : Prop := r.running = true ∨ r.host.starts = true

theorem step?_starting (h : Starting r) (hc : m.isCall = false) (hm : r.step? m = some r') :
    Starting r' := by
  cases m with
  | call c => cases hc
  | host =>
    cases hostStep?_went hm with
    | join => exact h
    | resume => exact .inr rfl
    | raise => exact .inl rfl
    | gone hhost | load hhost | spawnCpu hhost | spawnTimer hhost =>
      refine h.imp_right fun hs => ?_
      rw [hhost] at hs
      exact hs
    | settle hhost =>
      refine h.imp_right fun hs => ?_
      rw [hhost] at hs
      exact (HostPhase.starts_ofSequel _).trans hs
  | thread id random =>
    obtain ⟨phase, phase', hw⟩ := threadStep?_went hm
    rw [Starting, hw.running_eq, hw.host_eq]
    exact h

/-- A thread that is neither leaving nor at its end is in its loop. -/
theorem loops_of_unfinished (ho : Orderly r) (hf : r.handles.any r.isFinished = false)
    (hstop : ∀ t ∈ r.threads, t.phase ≠ .stopping) : Looping (fun _ => True) r := by
  intro _ t ht _
  have hunfinished : t.phase ≠ .finished := by
    intro hfinished
    rw [List.any_eq_false] at hf
    refine hf t.id (ho.id_mem_handles ht) ?_
    rw [isFinished, ho.phase?_of_mem ht, hfinished]
    rfl
  have hstopping := hstop t ht
  cases hp : t.phase with
  | starting | checking | stepping => rfl
  | stopping => exact absurd hp hstopping
  | finished => exact absurd hp hunfinished

/-- When a resume returns, both threads are there and in their loops, unless one was between a
failure and its end when it began, or failed since. -/
theorem resume_restarts (h : (new vm).steps? moves = some r)
    (hstop : ∀ t ∈ r.threads, t.phase ≠ .stopping) (hmid : ∀ m ∈ mid, m.isCall = false)
    (hs : r.steps? (.call .resume :: mid) = some r') (hready : r'.host.isReady = true)
    (hbeats : ∀ b ∈ r.beats (.call .resume :: mid), b.failure? = none) :
    r'.isRunning = true ∧ r'.threads.map Thread.id = crew r'.round ∧
      ∀ t ∈ r'.threads, t.phase.loops = true := by
  have ho := orderly_of_steps h
  obtain ⟨r₁, h₁, h₂⟩ := steps?_cons.mp hs
  obtain ⟨hready₀, hb⟩ := step?_call h₁
  have hbegun : Starting r₁ ∧ Looping (fun _ => True) r₁ := by
    have hrunning := ho.isRunning_eq hready₀
    cases hb with
    | halt hc =>
      cases hc
      exact ⟨.inr rfl, nofun⟩
    | pass hc hr =>
      cases hc
      refine ⟨.inr rfl, fun hup => ?_⟩
      rw [show r.running = false from hrunning.symm.trans hr] at hup
      cases hup
    | already _ hr hf =>
      have hloops := loops_of_unfinished ho hf hstop
      exact ⟨.inl (hrunning.symm.trans hr), hloops⟩
    | key hc => cases hc
  rw [beats_cons h₁, List.forall_mem_append] at hbeats
  have hreturned := steps?_steady_of_beats
    (I := fun now => Orderly now ∧ Starting now ∧ Looping (fun _ => True) now)
    (A := fun m => m.isCall = false) (B := fun b => b.failure? = none) (Q := fun _ => True) ?_
    ⟨step?_orderly ho h₁, hbegun⟩ hmid hbeats.2 h₂
  · obtain ⟨⟨ho', hstarting, hlooping⟩, -⟩ := hreturned
    have hup : r'.running = true := by
      obtain ⟨result, hhost⟩ := HostPhase.isReady_iff.mp hready
      refine hstarting.resolve_right fun hs => ?_
      rw [hhost] at hs
      cases hs
    have hcrew := ho'.ids_eq.trans (ho'.eq_crew hready hup)
    refine ⟨(ho'.isRunning_eq hready).trans hup, hcrew, fun t ht => ?_⟩
    exact hlooping hup t ht trivial
  · intro now m after ⟨ho, hs, hl⟩ hc hb hm
    exact ⟨⟨step?_orderly ho hm, step?_starting hs hc hm,
      step?_looping ho hl (fun b hmem _ => hb b hmem) hm⟩, fun _ _ => trivial⟩

/-! ### A resume that is lost -/

/-- The processor's thread is out of its loop, the host waits for nothing and no thread will be
spawned: but for a call, only the timers' thread does anything. -/
structure Adrift (round : Nat) (r : Player) : Prop where
  orderly : Orderly r
  host_eq : r.host = .ready (.ok ())
  round_eq : r.round = round
  retired : Retired ⟨round, .cpu⟩ r

theorem step?_adrift {round : Nat} (h : Adrift round r) (hc : m.isCall = false)
    (hm : r.step? m = some r') : Adrift round r' ∧ ∀ b ∈ r.beat? m, b.id.task = .timer := by
  obtain ⟨hretired, hbeat⟩ := step?_retired h.retired hm
  have ho' := step?_orderly h.orderly hm
  cases m with
  | call c => cases hc
  | host =>
    rw [step?, hostStep?, h.host_eq] at hm
    cases hm
  | thread id random =>
    obtain ⟨phase, phase', hw⟩ := threadStep?_went hm
    refine ⟨⟨ho', hw.host_eq.trans h.host_eq, hw.round_eq.trans h.round_eq, hretired⟩, ?_⟩
    intro b hb
    have hcrew : b.id ∈ crew round := by
      rw [hw.beat_id hb, ← h.round_eq]
      exact h.orderly.id_mem_crew hw.mem_before
    rcases List.mem_cons.mp hcrew with hid | hid
    · exact absurd hid (hbeat b hb)
    · rw [List.mem_singleton.mp hid]

theorem adrift_of_begun (h : (new vm).steps? moves = some r) (hready : r.host.isReady = true)
    (hstop : r.phase? ⟨r.round, .cpu⟩ = some .stopping) (hb : Begun r .resume r') :
    Adrift r.round r' := by
  have ho := orderly_of_steps h
  have hmem := mem_of_phase? hstop
  have hup : r.running = true := by
    by_contra hdown
    rw [Bool.not_eq_true] at hdown
    rw [ho.threads_eq_nil (ho.eq_nil hready hdown)] at hmem
    cases hmem
  have hrunning := (ho.isRunning_eq hready).trans hup
  have hunfinished : r.handles.any r.isFinished = false := by
    have hcpu : r.isFinished ⟨r.round, .cpu⟩ = false := by
      rw [isFinished, hstop]
      rfl
    have htimer : r.isFinished ⟨r.round, .timer⟩ = false := by
      obtain ⟨phase, hphase, hloops⟩ := exists_timer_phase h hready hup
      rw [isFinished, hphase]
      cases phase with
      | starting | checking | stepping => rfl
      | stopping | finished => cases hloops
    rw [ho.eq_crew hready hup]
    simp [crew, hcpu, htimer]
  cases hb with
  | halt hc hr hf => simp [hf rfl] at hunfinished
  | pass hc hr => simp [hr] at hrunning
  | key hc => cases hc
  | already =>
    refine ⟨⟨Stands.ready (ho.ready hready) _, ho.ids_eq⟩, rfl, rfl, rfl,
      .inr ⟨rfl, HostPhase.noConfusion⟩, ?_⟩
    intro t ht htid
    rw [ho.eq_of_id ht hmem htid]
    rfl

/-- A resume that falls between a failure and the end of its thread returns at once, and the
processor executes nothing until the next call. -/
theorem resume_lost (h : (new vm).steps? moves = some r)
    (hstop : r.phase? ⟨r.round, .cpu⟩ = some .stopping) (hmid : ∀ m ∈ mid, m.isCall = false)
    (hs : r.steps? (.call .resume :: mid) = some r') :
    r'.host = .ready (.ok ()) ∧ ∀ b ∈ r.beats (.call .resume :: mid), b.id.task = .timer := by
  obtain ⟨r₁, h₁, h₂⟩ := steps?_cons.mp hs
  obtain ⟨hready, hb⟩ := step?_call h₁
  have hadrift := steps?_steady (I := Adrift r.round) (A := fun m => m.isCall = false)
    (Q := fun b => b.id.task = .timer) (fun _ _ _ ha hc hm => step?_adrift ha hc hm)
    (adrift_of_begun h hready hstop hb) hmid h₂
  rw [beats_cons h₁]
  exact ⟨hadrift.1.host_eq, hadrift.2⟩

/-- And there are such states: the first instruction of a machine in a fault leads to one. -/
theorem exists_stopping {f : Fault} (hf : vm.machine.fault? = some f) :
    ∃ moves r, (new vm).steps? moves = some r ∧ r.host.isReady = true ∧
      (new vm).beats moves = [⟨⟨r.round, .cpu⟩, some (.fault f), [.error f]⟩] ∧
      r.phase? ⟨r.round, .cpu⟩ = some .stopping := by
  obtain ⟨signals, log, hs, hb⟩ := exists_failed hf #[]
  exact ⟨_, _, hs, rfl, hb, rfl⟩

end Player

end ChipEight
