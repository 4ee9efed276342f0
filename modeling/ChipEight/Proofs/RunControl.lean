import ChipEight.Proofs.Orderly
import ChipEight.Proofs.RunState
import Mathlib.Algebra.GroupWithZero.Nat
import Mathlib.Algebra.Order.BigOperators.Group.List
import Mathlib.Algebra.Order.Group.Nat

/-!
# ChipEight.Proofs.RunControl — the player and its machine agree

Two records say whether a machine plays: the handles on its threads, and the run state of the
machine.  They are changed at different points of a call; `HostPhase.plays` says which of them leads
at each point.  A load brings both back: it comes to its end whatever the threads do, because every
move takes some of the `work` that is left.  Main statement: `run_control_agrees`.
-/

namespace ChipEight

/-- The most moves that a thread has before it while the flag is down. -/
def Phase.toEnd : Phase → Nat
  | .starting | .stepping => 3
  | .checking => 2
  | .stopping => 1
  | .finished => 0

theorem Phase.toEnd_le (phase : Phase) : phase.toEnd ≤ 3 := by
  cases phase <;> decide

theorem RunState.isPlaying_eq_false_iff {s : RunState} : s.isPlaying = false ↔ s = .idle := by
  cases s <;> simp [isPlaying]

namespace HostPhase

/-- The machine plays, at this point of a call; between calls it does if it was started. -/
def plays (started : Bool) : HostPhase → Bool
  | .ready _ => started
  | .loading _ | .resuming => false
  | .joining _ | .settling _ | .raising | .spawning _ => true

theorem plays_ofSequel (sequel : Sequel) : (ofSequel sequel).plays false = false := by
  cases sequel <;> rfl

/-- The moves of the host before it, apart from waiting, in a call that stops the machine. -/
def toEnd : HostPhase → Nat
  | .joining _ => 3
  | .settling _ => 2
  | .loading _ => 1
  | .ready _ | .resuming | .raising | .spawning _ => 0

theorem toEnd_le (host : HostPhase) : host.toEnd ≤ 3 := by
  cases host <;> simp [toEnd]

theorem toEnd_ofSequel (sequel : Sequel) : (ofSequel sequel).toEnd ≤ 1 := by
  cases sequel <;> simp [ofSequel, toEnd]

end HostPhase

/-- A thread that goes on while the flag is down is one move nearer to its end. -/
theorem Advance.toEnd_lt {id : ThreadId} {phase phase' : Phase} {beat : Option Beat}
    (h : Advance false id phase beat phase') : phase'.toEnd < phase.toEnd := by
  cases h with
  | enter up => cases up
  | start | leave | beat | fail | finish => decide

namespace Player

variable {r r' : Player} {m : Move}

/-! ### Two records -/

/-- The run state of the machine is what it should be at this point. -/
def InStep (r : Player) : Prop := r.vm.isPlaying = r.host.plays r.isRunning

theorem InStep.isPlaying_eq (h : InStep r) (hready : r.host.isReady = true) :
    r.vm.isPlaying = r.isRunning := by
  obtain ⟨result, hhost⟩ := HostPhase.isReady_iff.mp hready
  rw [InStep, hhost] at h
  exact h

theorem isPlaying_load (h : r.vm.isPlaying = false) (program : List UInt8) :
    (r.vm.load program).vm.isPlaying = false := by
  rcases Nat.lt_or_ge Machine.programLimit program.length with hlarge | hfits
  · rw [(Vm.load_of_too_large hlarge r.vm).vm_eq]
    exact h
  · rw [Vm.load_of_fits hfits]
    rfl

theorem step?_inStep (ho : Orderly r) (h : InStep r) (hm : r.step? m = some r') : InStep r' := by
  cases m with
  | call c =>
    obtain ⟨hready, hb⟩ := step?_call hm
    have hplaying := h.isPlaying_eq hready
    cases hb with
    | halt hc hr => exact hplaying.trans hr
    | pass hc hr =>
      show r.vm.isPlaying = (HostPhase.ofSequel _).plays r.isRunning
      rw [hplaying, hr, HostPhase.plays_ofSequel]
    | already => exact hplaying
    | key hc hkey => exact hkey.trans hplaying
  | host =>
    cases hostStep?_went hm with
    | gone hhost | raise hhost | spawnCpu hhost =>
      rw [InStep, hhost] at h
      exact h
    | join hhost =>
      rw [InStep, hhost] at h ⊢
      exact h
    | settle hhost =>
      show r.vm.suspend.vm.isPlaying = (HostPhase.ofSequel _).plays r.isRunning
      rw [isRunning, ho.handles_eq_nil hhost rfl, Vm.suspend_eq]
      exact (HostPhase.plays_ofSequel _).symm
    | load hhost =>
      rw [InStep, hhost] at h
      show (r.vm.load _).vm.isPlaying = r.isRunning
      rw [isRunning, ho.handles_eq_nil hhost rfl]
      exact isPlaying_load h _
    | resume =>
      show r.vm.resume.vm.isPlaying = true
      rw [Vm.resume_eq]
      exact RunState.isPlaying_started _
    | spawnTimer hhost =>
      rw [InStep, hhost] at h
      show r.vm.isPlaying = !(r.handles ++ [_]).isEmpty
      rw [h]
      simp [HostPhase.plays]
  | thread id random =>
    obtain ⟨phase, phase', hw⟩ := threadStep?_went hm
    rw [InStep, hw.isPlaying_eq, hw.host_eq, isRunning, hw.handles_eq]
    exact h

/-! ### The end of a call -/

/-- At most so many moves are left before a call that stops the machine is at its end. -/
def work (r : Player) : Nat :=
  (r.threads.map fun t => t.phase.toEnd).sum + (r.handles.length + r.host.toEnd)

theorem sum_toEnd_lt (ho : Orderly r) (hdown : r.running = false) {id : ThreadId}
    {phase phase' : Phase} {beat : Option Beat} (hw : Went r id phase beat phase' r') :
    (r'.threads.map fun t => t.phase.toEnd).sum < (r.threads.map fun t => t.phase.toEnd).sum := by
  have hlt := (hdown ▸ hw.advance).toEnd_lt
  rw [hw.threads_eq, List.map_map]
  refine List.sum_lt_sum _ _ (fun t ht => ?_) ⟨⟨id, phase⟩, hw.mem_before, ?_⟩
  · by_cases hid : t.id = id
    · obtain rfl := ho.eq_of_id ht hw.mem_before hid
      simpa using hlt.le
    · simp [hid]
  · simpa using hlt

/-- Every move in a call that stops the machine takes some of the work that is left. -/
theorem step?_work (ho : Orderly r) (h : Halting r) (hc : m.isCall = false)
    (hm : r.step? m = some r') : r'.work < r.work := by
  obtain ⟨hdown, hhalts⟩ := h
  cases m with
  | call c => cases hc
  | host =>
    cases hostStep?_went hm with
    | gone hhost | load hhost =>
      simp only [work, hhost, HostPhase.toEnd]
      exact Nat.add_lt_add_left (Nat.add_lt_add_left (by decide) _) _
    | @join sequel id rest hhost hh =>
      have hsub : (r.threads.filter fun t => t.id ≠ id).Sublist r.threads := List.filter_sublist
      have hle := (hsub.map fun t => t.phase.toEnd).sum_le_sum fun _ _ => Nat.zero_le _
      simp only [work, hh, List.length_cons]
      omega
    | @settle sequel hhost =>
      have hle := HostPhase.toEnd_ofSequel sequel
      simp only [work, hhost, HostPhase.toEnd]
      exact Nat.add_lt_add_left (Nat.add_lt_add_left (Nat.lt_succ_of_le hle) _) _
    | resume hhost | raise hhost | spawnCpu hhost | spawnTimer hhost =>
      rw [hhost] at hhalts
      cases hhalts
  | thread id random =>
    obtain ⟨phase, phase', hw⟩ := threadStep?_went hm
    have hlt := sum_toEnd_lt ho hdown hw
    rw [work, work, hw.handles_eq, hw.host_eq]
    omega

theorem length_add_work_le (ho : Orderly r) (h : Halting r) {mid : List Move}
    (hmid : ∀ m ∈ mid, m.isCall = false) (hs : r.steps? mid = some r') :
    mid.length + r'.work ≤ r.work := by
  induction mid generalizing r with
  | nil =>
    cases hs
    exact (Nat.zero_add _).le
  | cons m mid ih =>
    obtain ⟨r₁, h₁, h₂⟩ := steps?_cons.mp hs
    rw [List.forall_mem_cons] at hmid
    have hlt := step?_work ho h hmid.1 h₁
    have hhalting := (step?_halting h (ne_resume_of_not_call hmid.1) h₁).1
    have hle := ih (step?_orderly ho h₁) hhalting hmid.2 h₂
    rw [List.length_cons]
    omega

/-- Two threads have three moves each at most, and the host five. -/
theorem work_le (ho : Orderly r) : r.work ≤ 11 := by
  have hhandles := ho.stands.length_le
  have hthreads : r.threads.length = r.handles.length := by rw [← ho.ids_eq, List.length_map]
  have hsum : (r.threads.map fun t => t.phase.toEnd).sum ≤ r.threads.length * 3 := by
    rw [← List.length_map fun t => t.phase.toEnd]
    refine List.sum_le_card_nsmul _ 3 ?_
    rw [List.forall_mem_map]
    exact fun t _ => t.phase.toEnd_le
  have hhost := r.host.toEnd_le
  rw [work]
  omega

/-- So a call that stops the machine ends soon, whoever makes the moves. -/
theorem length_le_of_stops (ho : Orderly r) {c : Call} (hc : c.stops = true) {mid : List Move}
    (hmid : ∀ m ∈ mid, m.isCall = false) (hs : r.steps? (.call c :: mid) = some r') :
    mid.length ≤ 11 := by
  obtain ⟨r₁, h₁, h₂⟩ := steps?_cons.mp hs
  obtain ⟨hready, hbegun⟩ := step?_call h₁
  have ho₁ := step?_orderly ho h₁
  have hlength := length_add_work_le ho₁ (begun_halting ho hready hc hbegun) hmid h₂
  have hwork := work_le ho₁
  omega

/-! ### A rejected load -/

/-- A step of the call, or of a thread that is not a step of its task, leaves the program alone,
unless it ends a load that succeeds. -/
theorem step?_keeps (hc : m.isCall = false) (hb : r.beat? m = none) (hm : r.step? m = some r') :
    r'.host = .ready (.ok ()) ∨ r'.vm.machine = r.vm.machine ∧ r'.vm.redraw = r.vm.redraw := by
  cases m with
  | call c => cases hc
  | host =>
    cases hostStep?_went hm with
    | gone | join | raise | spawnCpu | spawnTimer => exact .inr ⟨rfl, rfl⟩
    | settle =>
      show _ ∨ r.vm.suspend.vm.machine = _ ∧ r.vm.suspend.vm.redraw = _
      rw [Vm.suspend_eq]
      exact .inr ⟨rfl, rfl⟩
    | resume =>
      show _ ∨ r.vm.resume.vm.machine = _ ∧ r.vm.resume.vm.redraw = _
      rw [Vm.resume_eq]
      exact .inr ⟨rfl, rfl⟩
    | @load program hhost =>
      show HostPhase.ready (r.vm.load program).result = _ ∨
        (r.vm.load program).vm.machine = _ ∧ (r.vm.load program).vm.redraw = _
      rcases Nat.lt_or_ge Machine.programLimit program.length with hlarge | hfits
      · rw [(Vm.load_of_too_large hlarge r.vm).vm_eq]
        exact .inr ⟨rfl, rfl⟩
      · rw [Vm.load_of_fits hfits]
        exact .inl rfl
  | thread id random =>
    obtain ⟨phase, phase', hw⟩ := threadStep?_went hm
    rw [hw.vm_eq hb]
    exact .inr ⟨rfl, rfl⟩

/-- Once a call has ended well, that is how it ended. -/
theorem ready_of_steps {result : Except Failure Unit} (h : r.host = .ready result)
    {mid : List Move} (hmid : ∀ m ∈ mid, m.isCall = false) (hs : r.steps? mid = some r') :
    r'.host = .ready result := by
  refine steps?_kept (I := fun now => now.host = .ready result) (A := fun m => m.isCall = false) ?_
    h hmid hs
  intro now m after hnow hm hstep
  cases m with
  | call c => cases hm
  | host =>
    rw [step?, hostStep?, hnow] at hstep
    cases hstep
  | thread id random =>
    obtain ⟨phase, phase', hw⟩ := threadStep?_went hstep
    exact hw.host_eq.trans hnow

/-- So a load that is rejected leaves the program as the last step of a task left it. -/
theorem kept_of_error {e : Failure} (he : r'.host = .ready (.error e)) {late : List Move}
    (hlate : ∀ m ∈ late, m.isCall = false) (hs : r.steps? late = some r')
    (hb : r.beats late = []) :
    r'.vm.machine = r.vm.machine ∧ r'.vm.redraw = r.vm.redraw := by
  induction late generalizing r with
  | nil =>
    cases hs
    exact ⟨rfl, rfl⟩
  | cons m late ih =>
    obtain ⟨r₁, h₁, h₂⟩ := steps?_cons.mp hs
    rw [List.forall_mem_cons] at hlate
    rw [beats_cons h₁, List.append_eq_nil_iff, Option.toList_eq_nil_iff] at hb
    obtain ⟨hmachine, hredraw⟩ := ih hlate.2 h₂ hb.2
    rcases step?_keeps hlate.1 hb.1 h₁ with hok | ⟨hmachine₁, hredraw₁⟩
    · rw [ready_of_steps hok hlate.2 h₂] at he
      cases he
    · exact ⟨hmachine.trans hmachine₁, hredraw.trans hredraw₁⟩

theorem begun_load_vm {program : List UInt8} (hb : Begun r (.load program) r') :
    r'.vm = r.vm := by
  cases hb with
  | halt | pass | already => rfl
  | key hc => cases hc

/-! ### All together -/

theorem inStep_of_steps {vm : Vm} (hidle : vm.state = .idle) {moves : List Move}
    (h : (new vm).steps? moves = some r) : InStep r := by
  have hnew : InStep (new vm) := by
    show vm.isPlaying = false
    rw [Vm.isPlaying, hidle]
    rfl
  refine (steps?_invariant (I := fun now => Orderly now ∧ InStep now) ?_ ⟨orderly_new vm, hnew⟩ h).2
  intro now m after ⟨ho, hi⟩ hm
  exact ⟨step?_orderly ho hm, step?_inStep ho hi hm⟩

/-- Between calls a machine that was idle at first plays if and only if it was started, whatever has
become of its threads.  A load returns after at most eleven moves of host and threads, whatever
their order, and until it does there is one to make; then the player is stopped and the machine
idle, and if the program was rejected, all that the old one computed, and whether the screen is to
be shown, is as the last step of a task left it. -/
theorem run_control_agrees (vm : Vm) (hidle : vm.state = .idle) (moves : List Move) (r : Player)
    (h : (new vm).steps? moves = some r) :
    (r.host.isReady = true → (r.isRunning = true ↔ r.vm.isPlaying = true)) ∧
    ∀ program mid r', (∀ m ∈ mid, m.isCall = false) →
      r.steps? (.call (.load program) :: mid) = some r' →
      mid.length ≤ 11 ∧
      (r'.host.isReady = false → ∃ m r'', m.isCall = false ∧ r'.step? m = some r'') ∧
      (r'.host.isReady = true → r'.isRunning = false ∧ r'.vm.state = .idle) ∧
      ∀ e, r'.host = .ready (.error e) →
        ∀ early late r₁, .call (.load program) :: mid = early ++ late →
          r.steps? early = some r₁ → r₁.beats late = [] →
          r'.vm.machine = r₁.vm.machine ∧ r'.vm.redraw = r₁.vm.redraw := by
  have ho := orderly_of_steps h
  refine ⟨fun hready => ?_, fun program mid r' hmid hs => ?_⟩
  · rw [(inStep_of_steps hidle h).isPlaying_eq hready]
  · have hall : (new vm).steps? (moves ++ .call (.load program) :: mid) = some r' :=
      steps?_append.mpr ⟨r, h, hs⟩
    have ho' := orderly_of_steps hall
    have hhalting := halting_of_call ho rfl hmid hs
    obtain ⟨r₂, h₂, hmids⟩ := steps?_cons.mp hs
    obtain ⟨-, hbegun⟩ := step?_call h₂
    refine ⟨length_le_of_stops ho rfl hmid hs, exists_step_of_busy ho', fun hready' => ?_, ?_⟩
    · have hstopped := (ho'.isRunning_eq hready').trans hhalting.1
      have hplaying := ((inStep_of_steps hidle hall).isPlaying_eq hready').trans hstopped
      exact ⟨hstopped, RunState.isPlaying_eq_false_iff.mp hplaying⟩
    · intro e he early late r₁ hsplit hearly hb
      rw [hsplit] at hs
      obtain ⟨r₃, h₃, hlate⟩ := steps?_append.mp hs
      obtain rfl := Option.some.inj (h₃.symm.trans hearly)
      cases early with
      | nil =>
        cases hearly
        cases hsplit
        rw [beats_cons h₂] at hb
        rw [← begun_load_vm hbegun]
        exact kept_of_error he hmid hmids hb
      | cons first early =>
        cases hsplit
        exact kept_of_error he (fun m hm => hmid m (List.mem_append_right _ hm)) hlate hb

/-- A program that returns without a call: its thread has failed, and the machine plays on until a
program that is too large is loaded, which stops it and changes nothing else. -/
theorem run_control_agrees_rejected :
    let vm := (Vm.new {}).installed [0x00, 0xEE]
    let cpu : Move := .thread ⟨1, .cpu⟩ 0
    let timer : Move := .thread ⟨1, .timer⟩ 0
    let load : Move := .call (.load (List.replicate 3584 0))
    let mid := [cpu, .host, timer, timer, timer, .host, .host, .host, .host]
    ∃ r r', (new vm).steps? (opening ++ [cpu]) = some r ∧ r.isRunning = true ∧
      r.vm.isPlaying = true ∧ r.steps? (load :: mid) = some r' ∧ r'.isRunning = false ∧
      r'.vm.state = .idle ∧ r'.vm.machine = vm.machine := by
  have hlarge : Machine.programLimit < (List.replicate 3584 (0 : UInt8)).length := by
    rw [List.length_replicate]
    decide
  generalize List.replicate 3584 (0 : UInt8) = large at hlarge ⊢
  intro vm cpu timer load mid
  have hf : vm.machine.fault? = some .stackUnderflow := Vm.fault?_installed_ret _ _
  have hidle : vm.state = .idle := rfl
  clear_value vm
  obtain ⟨signals, log, hs, -⟩ := exists_failed hf #[]
  let r := startedOnce vm.resume.vm .stopping .starting signals log
  obtain ⟨hiff, hload⟩ := run_control_agrees vm hidle _ r hs
  have hbeats : r.beats (load :: mid) = [] := rfl
  have hsteps : ∃ r' now, r.steps? (load :: mid) = some r' ∧
      r'.host = .ready (Vm.load large now).result := ⟨_, _, rfl, rfl⟩
  obtain ⟨r', now, hs', hhost⟩ := hsteps
  rw [(Vm.load_of_too_large hlarge now).result_eq] at hhost
  obtain ⟨-, -, hstopped, hkept⟩ := hload large mid r' (by simp [mid, cpu, timer, Move.isCall]) hs'
  obtain ⟨hrunning', hstate⟩ := hstopped (by rw [hhost]; rfl)
  have hmachine := (hkept _ hhost [] _ r rfl rfl hbeats).1
  refine ⟨r, r', hs, rfl, (hiff rfl).mp rfl, hs', hrunning', hstate, hmachine.trans ?_⟩
  show vm.resume.vm.machine = vm.machine
  rw [Vm.resume_eq]

end Player

end ChipEight
