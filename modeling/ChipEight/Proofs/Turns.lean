import ChipEight.Player.Drive
import ChipEight.Proofs.Playthrough
import ChipEight.Proofs.RunControl

/-!
# ChipEight.Proofs.Turns — play-throughs come to their ends

Whoever makes the moves, a machine that is started and stopped gets through both calls
(`AtRest.returns`).  What `Drive` does in its fixed order are moves too, so what holds of all lists
of moves holds of it; main statement: a session started, played and stopped is a play-through
(`exists_playthrough`).
-/

namespace ChipEight

namespace HostPhase

/-- The steps of the host that a call has left which starts a machine without threads. -/
def toStart? : HostPhase → Option Nat
  | .ready _ => some 0
  | .spawning .timer => some 1
  | .spawning .cpu => some 2
  | .raising => some 3
  | .resuming => some 4
  | .joining _ | .settling _ | .loading _ => none

end HostPhase

namespace Player

variable {r r' r'' r₀ : Player} {m : Move} {c : Call} {id : ThreadId} {random : UInt8}

/-! ### Calls in any order of moves -/

/-- Each step of the host takes one from those left, and the threads none. -/
theorem step?_toStart {k : Nat} (h : r.host.toStart? = some k) (hc : m.isCall = false)
    (hm : r.step? m = some r') :
    ∃ k', r'.host.toStart? = some k' ∧ k = k' + [m].count .host := by
  cases m with
  | call c => cases hc
  | host =>
    cases hostStep?_went hm with
    | gone hhost | join hhost | settle hhost | load hhost =>
      rw [hhost] at h
      cases h
    | resume hhost | raise hhost | spawnCpu hhost | spawnTimer hhost =>
      rw [hhost] at h
      cases h
      exact ⟨_, rfl, rfl⟩
  | thread id random =>
    obtain ⟨phase, phase', hw⟩ := threadStep?_went hm
    exact ⟨k, by rw [hw.host_eq, h], rfl⟩

theorem steps?_toStart {k : Nat} (h : r.host.toStart? = some k) {mid : List Move}
    (hmid : ∀ m ∈ mid, m.isCall = false) (hs : r.steps? mid = some r') :
    ∃ k', r'.host.toStart? = some k' ∧ k = k' + mid.count .host := by
  induction mid generalizing r k with
  | nil =>
    cases hs
    exact ⟨k, h, rfl⟩
  | cons m mid ih =>
    obtain ⟨r₁, h₁, h₂⟩ := steps?_cons.mp hs
    rw [List.forall_mem_cons] at hmid
    obtain ⟨k₁, hk₁, hcount⟩ := step?_toStart h hmid.1 h₁
    obtain ⟨k', hk', hrest⟩ := ih hk₁ hmid.2 h₂
    refine ⟨k', hk', ?_⟩
    rw [show m :: mid = [m] ++ mid from rfl, List.count_append]
    omega

theorem exists_hostStep? {k : Nat} (h : r.host.toStart? = some k)
    (hbusy : r.host.isReady = false) : ∃ r', r.step? .host = some r' := by
  show ∃ r', r.hostStep? = some r'
  rw [hostStep?]
  cases hhost : r.host with
  | ready =>
    rw [hhost] at hbusy
    cases hbusy
  | joining | settling | loading =>
    rw [hhost] at h
    cases h
  | resuming | raising => exact ⟨_, rfl⟩
  | spawning t => cases t <;> exact ⟨_, rfl⟩

theorem begin_resume (hh : r.handles = []) : r.begin .resume = { r with host := .resuming } := by
  simp [begin, isRunning, hh]

/-- A start, and then a stop.  As long as one of these calls is in progress there is a move that
brings it on, and it ends after so many: four of the host, or eleven of whoever makes them. -/
structure Returns (r₀ : Player) : Prop where
  start : ∀ mid r, (∀ m ∈ mid, m.isCall = false) → r₀.steps? (.call .resume :: mid) = some r →
    mid.count .host ≤ 4 ∧ (r.host.isReady = false → ∃ r', r.step? .host = some r')
  stop : ∀ mid r late r', (∀ m ∈ mid, m.isCall = false) →
    r₀.steps? (.call .resume :: mid) = some r → (∀ m ∈ late, m.isCall = false) →
    r.steps? (.call .suspend :: late) = some r' →
    late.length ≤ 11 ∧
      (r'.host.isReady = false → ∃ m r'', m.isCall = false ∧ r'.step? m = some r'')

/-- However host and threads take turns, a machine that no thread drives is started, and it is
stopped again. -/
theorem AtRest.returns (h : AtRest r₀) : Returns r₀ where
  start mid r hmid hs := by
    obtain ⟨r₁, h₁, h₂⟩ := steps?_cons.mp hs
    obtain ⟨-, hbegin⟩ := Option.ite_none_right_eq_some.mp h₁
    have hk₁ : r₁.host.toStart? = some 4 := by
      rw [← Option.some.inj hbegin, begin_resume h.handles_eq]
      rfl
    obtain ⟨k, hk, hcount⟩ := steps?_toStart hk₁ hmid h₂
    exact ⟨by omega, exists_hostStep? hk⟩
  stop mid r late r' hmid hs hlate hs' := by
    have ho : Orderly r := steps?_invariant (fun _ _ _ => step?_orderly) h.orderly hs
    have ho' : Orderly r' := steps?_invariant (fun _ _ _ => step?_orderly) ho hs'
    exact ⟨length_le_of_stops ho rfl hlate hs', exists_step_of_busy ho'⟩

/-! ### Moves between calls -/

/-- By moves that begin no call, `r` comes to `r'`. -/
def Proceeds (r r' : Player) : Prop :=
  ∃ moves, (∀ m ∈ moves, m.isCall = false) ∧ r.steps? moves = some r'

namespace Proceeds

theorem refl (r : Player) : Proceeds r r := ⟨[], nofun, rfl⟩

theorem of_step (h : r.step? m = some r') (hm : m.isCall = false) : Proceeds r r' :=
  ⟨[m], by simpa using hm, steps?_cons.mpr ⟨r', h, rfl⟩⟩

theorem trans (h : Proceeds r r') (h' : Proceeds r' r'') : Proceeds r r'' := by
  obtain ⟨moves, hmoves, hs⟩ := h
  obtain ⟨moves', hmoves', hs'⟩ := h'
  exact ⟨moves ++ moves', List.forall_mem_append.mpr ⟨hmoves, hmoves'⟩,
    steps?_append.mpr ⟨r', hs, hs'⟩⟩

theorem orderly (h : Proceeds r r') (ho : Orderly r) : Orderly r' := by
  obtain ⟨moves, -, hs⟩ := h
  exact steps?_invariant (fun _ _ _ => step?_orderly) ho hs

/-- Between calls nothing but a call begins one. -/
theorem ready (h : Proceeds r r') (hr : r.host.isReady = true) : r'.host.isReady = true := by
  obtain ⟨moves, hmoves, hs⟩ := h
  obtain ⟨result, hhost⟩ := HostPhase.isReady_iff.mp hr
  exact HostPhase.isReady_iff.mpr ⟨result, ready_of_steps hhost hmoves hs⟩

end Proceeds

/-! ### Calls -/

theorem settle_of_hostStep? (h : r.hostStep? = some r') (k : Nat) :
    settle random (k + 1) r = settle random k r' := by
  rw [settle, h]

theorem settle_of_ready (h : r.host.isReady = true) (k : Nat) : settle random k r = r := by
  obtain ⟨result, hhost⟩ := HostPhase.isReady_iff.mp h
  have hnone : r.hostStep? = none := by rw [hostStep?, hhost]
  cases k with
  | zero => rfl
  | succ k => rw [settle, hnone]; exact if_pos h

theorem settle_proceeds (random : UInt8) (k : Nat) (r : Player) :
    Proceeds r (settle random k r) := by
  induction k generalizing r with
  | zero => exact .refl r
  | succ k ih =>
    rw [settle]
    split
    · next r' hs => exact (Proceeds.of_step (m := .host) hs rfl).trans (ih r')
    · split
      · exact .refl r
      · split
        · next r' hs =>
          obtain ⟨id, -, hstep⟩ := Option.bind_eq_some_iff.mp hs
          exact (Proceeds.of_step (m := .thread id random) hstep rfl).trans (ih r')
        · exact .refl r

/-- A call is its begin and moves that bring it on. -/
theorem perform_steps (hready : r.host.isReady = true) (c : Call) :
    ∃ mid, (∀ m ∈ mid, m.isCall = false) ∧
      r.steps? (.call c :: mid) = some (r.perform c) := by
  obtain ⟨mid, hmid, hs⟩ := settle_proceeds 0 callSteps (r.begin c)
  exact ⟨mid, hmid, steps?_cons.mpr ⟨r.begin c, if_pos hready, hs⟩⟩

/-- A call that stops the machine ends within as many moves as there is work left. -/
theorem settle_ready (ho : Orderly r) (hh : Halting r) {k : Nat} (hk : r.work < k) :
    (settle random k r).host.isReady = true := by
  induction k generalizing r with
  | zero => cases hk
  | succ k ih =>
    have hgo {m : Move} {r' : Player} (hm : m.isCall = false) (hs : r.step? m = some r') :
        (settle random k r').host.isReady = true := by
      have hwork := step?_work ho hh hm hs
      exact ih (step?_orderly ho hs) (step?_halting hh (ne_resume_of_not_call hm) hs).1 (by omega)
    rw [settle]
    split
    · next r' hs => exact hgo (m := .host) rfl hs
    · next hnone =>
      split
      · next hready => exact hready
      · next hready =>
        obtain ⟨id, r', hhead, hs⟩ :=
          exists_awaited_step ho (by simpa using hready) hnone random
        rw [hhead, Option.bind_some, hs]
        exact hgo (m := .thread id random) rfl hs

/-- A call that stops the machine is brought to its end. -/
theorem perform_ready_of_stops (ho : Orderly r) (hready : r.host.isReady = true)
    (hc : c.stops = true) : (r.perform c).host.isReady = true := by
  have hs : r.step? (.call c) = some (r.begin c) := if_pos hready
  have ho' := step?_orderly ho hs
  refine settle_ready ho' (begun_halting ho hready hc (begin_begun r c)) ?_
  have hwork := work_le ho'
  rw [callSteps]
  omega

/-- And so is one that starts it, when no thread is there. -/
theorem perform_resume_ready (hh : r.handles = []) : (r.perform .resume).host.isReady = true := by
  rw [perform, begin_resume hh, callSteps]
  -- resume, raise the flag, spawn the one thread and the other
  rw [settle_of_hostStep? rfl, settle_of_hostStep? rfl, settle_of_hostStep? rfl,
    settle_of_hostStep? rfl, settle_of_ready rfl]
  rfl

/-! ### Turns -/

theorem turnWithin_proceeds (id : ThreadId) (random : UInt8) (k : Nat) (r : Player) :
    Proceeds r (turnWithin id random k r) := by
  induction k generalizing r with
  | zero => exact .refl r
  | succ k ih =>
    rw [turnWithin]
    split
    · exact .refl r
    · next r' hs =>
      have hstep : Proceeds r r' := .of_step (m := .thread id random) hs rfl
      split
      · exact hstep
      · exact hstep.trans (ih r')

theorem turn_proceeds (r : Player) (t : Task) (random : UInt8) :
    Proceeds r (r.turn t random) := by
  unfold turn
  split
  · exact turnWithin_proceeds _ _ _ _
  · exact .refl r

end Player

namespace Session

open Player

theorem cycles_proceeds (k : Nat) (s : Session) : Proceeds s.player (cycles k s).player := by
  induction k generalizing s with
  | zero => exact .refl _
  | succ k ih =>
    rw [cycles]
    exact (turn_proceeds s.player .cpu _).trans (ih ⟨_, _⟩)

theorem period_proceeds (turns : Nat) (s : Session) :
    Proceeds s.player (period turns s).player :=
  (cycles_proceeds turns s).trans (turn_proceeds _ .timer 0)

theorem playFrom_proceeds (done : Player → Bool) (turns : Nat → Nat) (first k : Nat)
    (s : Session) : Proceeds s.player (playFrom done turns first k s).player := by
  induction k generalizing first s with
  | zero => exact .refl _
  | succ k ih =>
    rw [playFrom]
    split
    · exact .refl _
    · exact (period_proceeds _ s).trans (ih _ _)

/-- A machine started, played so far, and stopped. -/
theorem exists_playthrough {r : Player} (h : AtRest r) (seed : UInt64) (done : Player → Bool)
    (turns : Nat → Nat) (periods : Nat) :
    let played := ((perform ⟨r, seed⟩ .resume).playUntil done turns periods).player
    ∃ moves, Playthrough r moves (played.perform .suspend) := by
  intro played
  obtain ⟨start, hstart, hs⟩ := perform_steps h.ready .resume
  obtain ⟨turned, hturned, hs'⟩ : Proceeds (r.perform .resume) played :=
    playFrom_proceeds done turns 0 periods ⟨r.perform .resume, seed⟩
  have hplay : r.steps? (.call .resume :: (start ++ turned)) = some played :=
    steps?_append.mpr ⟨_, hs, hs'⟩
  have ho : Orderly played := steps?_invariant (fun _ _ _ => step?_orderly) h.orderly hplay
  have hready : played.host.isReady = true := by
    refine Proceeds.ready ⟨turned, hturned, hs'⟩ ?_
    exact perform_resume_ready h.handles_eq
  obtain ⟨stop, hstop, hs''⟩ := perform_steps hready .suspend
  refine ⟨_, ⟨start ++ turned, stop, rfl, ?_, hstop⟩, ?_, ?_⟩
  · exact List.forall_mem_append.mpr ⟨hstart, hturned⟩
  · exact steps?_append.mpr ⟨played, hplay, hs''⟩
  · exact perform_ready_of_stops ho hready rfl

end Session

end ChipEight
