import ChipEight.Proofs.Moves
import Mathlib.Data.List.Nodup

/-!
# ChipEight.Proofs.Orderly — who is there at each point of a call

The flag, the threads and the handles on them are changed one after the other, by several steps of
a call.  `Stands` is the table of how they are at each point of it, and `step?_orderly` says that
every move keeps to the table.  While the flag is up a thread leaves its loop by a failure only
(`step?_looping`), and a call that stops the machine keeps the flag down (`step?_halting`).
-/

namespace ChipEight

/-- The two threads of a start, in the order they are spawned. -/
def crew (round : Nat) : List ThreadId := [⟨round, .cpu⟩, ⟨round, .timer⟩]

theorem crew_nodup (round : Nat) : (crew round).Nodup := by simp [crew]

/-- The flag, and the threads that the host has a handle on, at each point of a call. -/
inductive Stands (round : Nat) : HostPhase → Bool → List ThreadId → Prop
  | stopped (result : Except Failure Unit) : Stands round (.ready result) false []
  | started (result : Except Failure Unit) : Stands round (.ready result) true (crew round)
  | joining (sequel : Sequel) {handles : List ThreadId} (suffix : handles <:+ crew round) :
      Stands round (.joining sequel) false handles
  | settling (sequel : Sequel) : Stands round (.settling sequel) false []
  | loading (program : List UInt8) : Stands round (.loading program) false []
  | resuming : Stands round .resuming false []
  | raising : Stands round .raising false []
  | spawnCpu : Stands round (.spawning .cpu) true []
  | spawnTimer : Stands round (.spawning .timer) true [⟨round, .cpu⟩]

/-- The call stops the machine and does not start it again. -/
def Call.stops (c : Call) : Bool := c.sequel?.any (· != .start)

namespace HostPhase

/-- The call, if one is in progress, stops the machine and does not start it again. -/
def halts : HostPhase → Bool
  | .ready _ | .loading _ => true
  | .joining sequel | .settling sequel => sequel != .start
  | .resuming | .raising | .spawning _ => false

/-- At this point of a call there is no thread. -/
def alone : HostPhase → Bool
  | .settling _ | .loading _ | .resuming | .raising | .spawning .cpu => true
  | .ready _ | .joining _ | .spawning .timer => false

theorem halts_ofSequel {sequel : Sequel} : (ofSequel sequel).halts = (sequel != .start) := by
  cases sequel <;> rfl

theorem ofSequel_ne_spawning {sequel : Sequel} {t : Task} : ofSequel sequel ≠ .spawning t := by
  cases sequel <;> nofun

theorem isReady_iff {host : HostPhase} : host.isReady = true ↔ ∃ result, host = .ready result := by
  cases host <;> simp [isReady]

end HostPhase

namespace Stands

variable {round : Nat} {host : HostPhase} {running : Bool} {handles : List ThreadId}

theorem mem_crew (h : Stands round host running handles) {id : ThreadId} (hid : id ∈ handles) :
    id ∈ crew round := by
  cases h with
  | started => exact hid
  | joining sequel suffix => exact suffix.subset hid
  | spawnTimer => exact List.mem_of_mem_head? (List.mem_singleton.mp hid ▸ rfl)
  | stopped | settling | loading | resuming | raising | spawnCpu => cases hid

theorem nodup (h : Stands round host running handles) : handles.Nodup := by
  cases h with
  | started => exact crew_nodup round
  | joining sequel suffix => exact (crew_nodup round).sublist suffix.sublist
  | spawnTimer => exact List.nodup_singleton _
  | stopped | settling | loading | resuming | raising | spawnCpu => exact .nil

theorem length_le (h : Stands round host running handles) : handles.length ≤ 2 := by
  cases h with
  | joining sequel suffix => exact suffix.length_le
  | started | stopped | settling | loading | resuming | raising | spawnCpu | spawnTimer =>
    simp [crew]

theorem of_ready {result : Except Failure Unit} (h : Stands round (.ready result) running handles) :
    running = false ∧ handles = [] ∨ running = true ∧ handles = crew round := by
  cases h with
  | stopped => exact .inl ⟨rfl, rfl⟩
  | started => exact .inr ⟨rfl, rfl⟩

theorem eq_nil (h : Stands round host running handles) (ha : host.alone = true) : handles = [] := by
  cases h with
  | stopped | settling | loading | resuming | raising | spawnCpu => rfl
  | started | joining | spawnTimer => cases ha

/-- The result of a call plays no part in the table. -/
theorem ready (h : running = false ∧ handles = [] ∨ running = true ∧ handles = crew round)
    (result : Except Failure Unit) : Stands round (.ready result) running handles := by
  rcases h with ⟨rfl, rfl⟩ | ⟨rfl, rfl⟩
  · exact .stopped result
  · exact .started result

theorem ofSequel (round : Nat) (sequel : Sequel) : Stands round (.ofSequel sequel) false [] := by
  cases sequel with
  | nothing => exact .stopped _
  | load program => exact .loading program
  | start => exact .resuming

end Stands

namespace Player

variable {r r' : Player} {m : Move}

/-- The threads are those with a handle, and all is as the table says. -/
structure Orderly (r : Player) : Prop where
  stands : Stands r.round r.host r.running r.handles
  ids_eq : r.threads.map Thread.id = r.handles

theorem orderly_new (vm : Vm) : (new vm).Orderly := ⟨.stopped _, rfl⟩

namespace Orderly

theorem threads_eq_nil (h : Orderly r) (hh : r.handles = []) : r.threads = [] := by
  rw [← List.map_eq_nil_iff, h.ids_eq, hh]

theorem id_mem_handles (h : Orderly r) {t : Thread} (ht : t ∈ r.threads) : t.id ∈ r.handles := by
  rw [← h.ids_eq]
  exact List.mem_map_of_mem ht

theorem id_mem_crew (h : Orderly r) {t : Thread} (ht : t ∈ r.threads) : t.id ∈ crew r.round :=
  h.stands.mem_crew (h.id_mem_handles ht)

theorem id_round (h : Orderly r) {t : Thread} (ht : t ∈ r.threads) : t.id.round = r.round := by
  have hmem := h.id_mem_crew ht
  simp only [crew, List.mem_cons, List.not_mem_nil, or_false] at hmem
  rcases hmem with hid | hid <;> rw [hid]

theorem eq_of_id (h : Orderly r) {t u : Thread} (ht : t ∈ r.threads) (hu : u ∈ r.threads)
    (hid : t.id = u.id) : t = u := by
  have hnodup : (r.threads.map Thread.id).Nodup := h.ids_eq ▸ h.stands.nodup
  exact List.inj_on_of_nodup_map hnodup ht hu hid

/-- Between calls the flag is up if and only if both threads are there. -/
theorem ready (h : Orderly r) (hready : r.host.isReady = true) :
    r.running = false ∧ r.handles = [] ∨ r.running = true ∧ r.handles = crew r.round := by
  obtain ⟨result, hhost⟩ := HostPhase.isReady_iff.mp hready
  exact (hhost ▸ h.stands).of_ready

theorem handles_eq_nil {host : HostPhase} (h : Orderly r) (hhost : r.host = host)
    (ha : host.alone = true) : r.handles = [] :=
  (hhost ▸ h.stands).eq_nil ha

theorem isRunning_eq (h : Orderly r) (hready : r.host.isReady = true) :
    r.isRunning = r.running := by
  rcases h.ready hready with ⟨hr, hh⟩ | ⟨hr, hh⟩ <;> rw [isRunning, hr, hh] <;> rfl

theorem eq_crew (h : Orderly r) (hready : r.host.isReady = true) (hup : r.running = true) :
    r.handles = crew r.round :=
  ((h.ready hready).resolve_left fun hdown => by simp [hup] at hdown).2

theorem eq_nil (h : Orderly r) (hready : r.host.isReady = true) (hdown : r.running = false) :
    r.handles = [] :=
  ((h.ready hready).resolve_right fun hup => by simp [hdown] at hup).2

theorem exists_phase? (h : Orderly r) {id : ThreadId} (hid : id ∈ r.handles) :
    ∃ phase, r.phase? id = some phase := by
  rw [← h.ids_eq, List.mem_map] at hid
  obtain ⟨t, ht, rfl⟩ := hid
  refine Option.isSome_iff_exists.mp ?_
  rw [phase?, Option.isSome_map, List.find?_isSome]
  exact ⟨t, ht, decide_eq_true rfl⟩

theorem phase?_of_mem (h : Orderly r) {t : Thread} (ht : t ∈ r.threads) :
    r.phase? t.id = some t.phase := by
  obtain ⟨phase, hphase⟩ := h.exists_phase? (h.id_mem_handles ht)
  rw [hphase, ← h.eq_of_id (mem_of_phase? hphase) ht rfl]

end Orderly

/-! ### Moves -/

theorem begun_orderly (h : Orderly r) {c : Call} (hready : r.host.isReady = true)
    (hb : Begun r c r') : Orderly r' := by
  have hcrew := h.ready hready
  cases hb with
  | halt hc hr hf =>
    have hsuffix : r.handles <:+ crew r.round := by
      rcases hcrew with ⟨-, hh⟩ | ⟨-, hh⟩
      · exact hh ▸ List.nil_suffix
      · exact hh ▸ List.suffix_refl _
    exact ⟨.joining _ hsuffix, h.ids_eq⟩
  | pass hc hr =>
    have hnone : r.handles = [] := by simpa [isRunning] using hr
    have hdown : r.running = false := (h.isRunning_eq hready).symm.trans hr
    refine ⟨?_, h.ids_eq⟩
    show Stands r.round (.ofSequel _) r.running r.handles
    rw [hnone, hdown]
    exact Stands.ofSequel _ _
  | already => exact ⟨Stands.ready hcrew _, h.ids_eq⟩
  | key => exact ⟨Stands.ready hcrew _, h.ids_eq⟩

theorem hostWent_orderly (h : Orderly r) (hw : HostWent r r') : Orderly r' := by
  obtain ⟨vm, running, threads, handles, round, host, signals, log⟩ := r
  have hs : Stands round host running handles := h.stands
  have hids : threads.map Thread.id = handles := h.ids_eq
  cases hw with
  | gone hhost hh =>
    cases hhost
    cases hh
    cases hs
    exact ⟨.settling _, hids⟩
  | @join sequel id rest hhost hh hf =>
    cases hhost
    cases hh
    have hfresh : id ∉ rest := (List.nodup_cons.mp hs.nodup).1
    cases hs with
    | joining _ suffix =>
      refine ⟨.joining _ ((List.suffix_cons id rest).trans suffix), ?_⟩
      show (threads.filter fun t => t.id ≠ id).map Thread.id = rest
      calc (threads.filter fun t => t.id ≠ id).map Thread.id
        _ = (threads.map Thread.id).filter (· ≠ id) := by rw [List.filter_map]; rfl
        _ = (id :: rest).filter (· ≠ id) := by rw [hids]
        _ = rest := by
          rw [List.filter_cons_of_neg (by simp), List.filter_eq_self]
          intro other hother
          exact decide_eq_true (ne_of_mem_of_not_mem hother hfresh)
  | settle hhost =>
    cases hhost
    cases hs
    exact ⟨.ofSequel round _, hids⟩
  | load hhost =>
    cases hhost
    cases hs
    exact ⟨.stopped _, hids⟩
  | resume hhost =>
    cases hhost
    cases hs
    exact ⟨.raising, hids⟩
  | raise hhost =>
    cases hhost
    cases hs
    exact ⟨.spawnCpu, hids⟩
  | spawnCpu hhost =>
    cases hhost
    cases hs
    cases h.threads_eq_nil rfl
    exact ⟨.spawnTimer, rfl⟩
  | spawnTimer hhost =>
    cases hhost
    cases hs
    refine ⟨.started _, ?_⟩
    show (threads ++ [_]).map Thread.id = _
    rw [List.map_append, hids]
    rfl

theorem went_orderly (h : Orderly r) {id : ThreadId} {phase phase' : Phase} {beat : Option Beat}
    (hw : Went r id phase beat phase' r') : Orderly r' where
  stands := by
    rw [hw.round_eq, hw.host_eq, hw.running_eq, hw.handles_eq]
    exact h.stands
  ids_eq := by rw [hw.ids_eq, hw.handles_eq, h.ids_eq]

theorem step?_orderly (h : Orderly r) (hm : r.step? m = some r') : Orderly r' := by
  cases m with
  | call c =>
    obtain ⟨hready, hb⟩ := step?_call hm
    exact begun_orderly h hready hb
  | host => exact hostWent_orderly h (hostStep?_went hm)
  | thread id random =>
    obtain ⟨phase, phase', hw⟩ := threadStep?_went hm
    exact went_orderly h hw

theorem orderly_of_steps {vm : Vm} {moves : List Move} (h : (new vm).steps? moves = some r) :
    Orderly r :=
  steps?_invariant (fun _ _ _ => step?_orderly) (orderly_new vm) h

/-- Where the host has to wait for a thread that is not at its end, that thread can go on. -/
theorem exists_awaited_step (ho : Orderly r) (hbusy : r.host.isReady = false)
    (hnone : r.hostStep? = none) (random : UInt8) :
    ∃ id r', r.handles.head? = some id ∧ r.threadStep? id random = some r' := by
  unfold hostStep? at hnone
  split at hnone
  · next hhost =>
    rw [hhost] at hbusy
    cases hbusy
  · split at hnone
    · cases hnone
    · next id rest hhandles =>
      split at hnone
      · cases hnone
      · next hf =>
        obtain ⟨phase, hphase⟩ := ho.exists_phase? (hhandles ▸ List.mem_cons_self)
        have hne : phase ≠ .finished := by
          rintro rfl
          exact hf (by rw [isFinished, hphase]; rfl)
        obtain ⟨r', hr'⟩ := exists_threadStep? hphase hne random
        exact ⟨id, r', by rw [hhandles]; rfl, hr'⟩
  all_goals cases hnone

/-- While a call is in progress, the host can go on with it, or the thread that it waits for can. -/
theorem exists_step_of_busy (ho : Orderly r) (hbusy : r.host.isReady = false) :
    ∃ m r', m.isCall = false ∧ r.step? m = some r' := by
  cases hs : r.hostStep? with
  | some r' => exact ⟨.host, r', rfl, hs⟩
  | none =>
    obtain ⟨id, r', -, hr'⟩ := exists_awaited_step ho hbusy hs 0
    exact ⟨.thread id 0, r', rfl, hr'⟩

/-! ### Loops -/

/-- While the flag is up, the threads that `T` picks out are in their loops. -/
def Looping (T : ThreadId → Prop) (r : Player) : Prop :=
  r.running = true → ∀ t ∈ r.threads, T t.id → t.phase.loops = true

/-- While the flag is up a thread leaves its loop by a failure only. -/
theorem step?_looping {T : ThreadId → Prop} (ho : Orderly r) (h : Looping T r)
    (hbeat : ∀ b ∈ r.beat? m, T b.id → b.failure? = none) (hm : r.step? m = some r') :
    Looping T r' := by
  cases m with
  | call c =>
    cases (step?_call hm).2 with
    | halt => exact nofun
    | pass | already | key => exact h
  | host =>
    cases hostStep?_went hm with
    | join =>
      intro hr t ht
      exact h hr t (List.mem_of_mem_filter ht)
    | raise hhost =>
      -- no thread is left when the flag goes up
      have hnone := ho.threads_eq_nil (ho.handles_eq_nil hhost rfl)
      intro _ t ht
      rw [show r.threads = [] from hnone] at ht
      cases ht
    | spawnCpu | spawnTimer =>
      intro hr t ht hT
      rcases mem_of_mem_spawn ht with ht | rfl
      · exact h hr t ht hT
      · rfl
    | gone | settle | load | resume => exact h
  | thread id random =>
    obtain ⟨phase, phase', hw⟩ := threadStep?_went hm
    generalize r.beat? (.thread id random) = beat at hbeat hw
    intro hr t ht hT
    rw [hw.running_eq] at hr
    rcases hw.eq_or_mem ht with rfl | ⟨-, ht⟩
    · have hbefore := h hr _ hw.mem_before hT
      cases hw.advance with
      | start | enter | beat => rfl
      | leave down => rw [hr] at down; cases down
      | fail => cases hbeat _ rfl hT
      | finish => cases hbefore
    · exact h hr t ht hT

/-! ### Stopping -/

/-- The flag is down, and the call in progress, if there is one, leaves it there. -/
def Halting (r : Player) : Prop := r.running = false ∧ r.host.halts = true

theorem begun_halting (ho : Orderly r) (hready : r.host.isReady = true) {c : Call}
    (hc : c.stops = true) (hb : Begun r c r') : Halting r' := by
  have hstop {sequel : Sequel} (hs : c.sequel? = some sequel) : (sequel != .start) = true := by
    simpa [Call.stops, hs] using hc
  cases hb with
  | halt hs => exact ⟨rfl, hstop hs⟩
  | pass hs hr =>
    exact ⟨(ho.isRunning_eq hready).symm.trans hr, HostPhase.halts_ofSequel.trans (hstop hs)⟩
  | already hcall =>
    rw [hcall] at hc
    cases hc
  | key hs =>
    rw [Call.stops, hs] at hc
    cases hc

/-- Only a resume starts anything: until then the host has handles on ever fewer threads. -/
theorem step?_halting (h : Halting r) (hresume : m ≠ .call .resume) (hm : r.step? m = some r') :
    Halting r' ∧ r'.handles <:+ r.handles := by
  obtain ⟨hdown, hhalts⟩ := h
  cases m with
  | call c =>
    have hstart : ∀ sequel, c.sequel? = some sequel → (sequel != .start) = true := by
      cases c <;> simp_all [Call.sequel?]
    cases (step?_call hm).2 with
    | halt hc => exact ⟨⟨rfl, hstart _ hc⟩, List.suffix_refl _⟩
    | pass hc => exact ⟨⟨hdown, HostPhase.halts_ofSequel.trans (hstart _ hc)⟩, List.suffix_refl _⟩
    | already | key => exact ⟨⟨hdown, rfl⟩, List.suffix_refl _⟩
  | host =>
    cases hostStep?_went hm with
    | gone hhost =>
      rw [hhost] at hhalts
      exact ⟨⟨hdown, hhalts⟩, List.suffix_refl _⟩
    | join hhost hh =>
      rw [hh]
      exact ⟨⟨hdown, hhalts⟩, List.suffix_cons _ _⟩
    | settle hhost =>
      rw [hhost] at hhalts
      exact ⟨⟨hdown, HostPhase.halts_ofSequel.trans hhalts⟩, List.suffix_refl _⟩
    | load => exact ⟨⟨hdown, rfl⟩, List.suffix_refl _⟩
    | resume hhost | raise hhost | spawnCpu hhost | spawnTimer hhost =>
      rw [hhost] at hhalts
      cases hhalts
  | thread id random =>
    obtain ⟨phase, phase', hw⟩ := threadStep?_went hm
    refine ⟨⟨hw.running_eq.trans hdown, ?_⟩, hw.handles_eq ▸ List.suffix_refl _⟩
    rw [hw.host_eq]
    exact hhalts

theorem beat?_eq_none (h : r.threads = []) (m : Move) : r.beat? m = none := by
  cases m with
  | thread id random => exact beat?_of_ne_stepping (by simp [phase?, h]) random
  | _ => rfl

/-- Until the next call begins, a call that stops the machine keeps the flag down. -/
theorem halting_of_call (ho : Orderly r) {c : Call} (hc : c.stops = true) {mid : List Move}
    (hmid : ∀ m ∈ mid, m.isCall = false) (hs : r.steps? (.call c :: mid) = some r') :
    Halting r' := by
  obtain ⟨r₁, h₁, h₂⟩ := steps?_cons.mp hs
  obtain ⟨hready, hb⟩ := step?_call h₁
  refine steps?_kept (A := fun m => m.isCall = false) ?_ (begun_halting ho hready hc hb) hmid h₂
  intro now m after hnow hm hstep
  exact (step?_halting hnow (ne_resume_of_not_call hm) hstep).1

/-- Once no thread is left, none comes back before a resume, and nothing is done to the machine but
what the host does. -/
theorem beats_eq_nil (ho : Orderly r) (h : Halting r) (hh : r.handles = []) {moves : List Move}
    (hmoves : ∀ m ∈ moves, m ≠ .call .resume) (hs : r.steps? moves = some r') :
    r.beats moves = [] := by
  have hnone : ∀ b ∈ r.beats moves, False := by
    refine (steps?_steady (I := fun now => Orderly now ∧ Halting now ∧ now.handles = []) ?_
      ⟨ho, h, hh⟩ hmoves hs).2
    intro now m after ⟨ho, h, hh⟩ hm hstep
    obtain ⟨h', hsuffix⟩ := step?_halting h hm hstep
    rw [hh, List.suffix_nil] at hsuffix
    refine ⟨⟨step?_orderly ho hstep, h', hsuffix⟩, fun b hb => ?_⟩
    rw [beat?_eq_none (ho.threads_eq_nil hh)] at hb
    cases hb
  exact List.eq_nil_iff_forall_not_mem.mpr hnone

/-! ### A first start -/

/-- The first resume of a machine, up to its first instruction. -/
def opening : List Move := .call .resume :: List.replicate 4 .host ++
  List.replicate 2 (.thread ⟨1, .cpu⟩ 0)

/-- A machine that was started once, with its threads so far. -/
def startedOnce (vm : Vm) (cpu timer : Phase) (signals : Array Signal) (log : Array Record) :
    Player where
  vm := vm
  running := true
  threads := [⟨⟨1, .cpu⟩, cpu⟩, ⟨⟨1, .timer⟩, timer⟩]
  handles := crew 1
  round := 1
  host := .ready (.ok ())
  signals := signals
  log := log

/-- A machine that was never started. -/
def resting (vm : Vm) (log : Array Record) : Player := { new vm with log }

theorem exists_opened (vm : Vm) (before : Array Record) :
    ∃ signals log,
      (resting vm before).steps? opening =
        some (startedOnce vm.resume.vm .stepping .starting signals log) ∧
      (resting vm before).beats opening = [] :=
  ⟨_, _, rfl, rfl⟩

/-- In a machine that is in a fault the first instruction fails, and the processor's thread is out
of its loop. -/
theorem exists_failed {vm : Vm} {f : Fault} (hf : vm.machine.fault? = some f)
    (before : Array Record) :
    ∃ signals log,
      (resting vm before).steps? (opening ++ [.thread ⟨1, .cpu⟩ 0]) =
        some (startedOnce vm.resume.vm .stopping .starting signals log) ∧
      (resting vm before).beats (opening ++ [.thread ⟨1, .cpu⟩ 0]) =
        [⟨⟨1, .cpu⟩, some (.fault f), [.error f]⟩] := by
  obtain ⟨signals, log, hs, hb⟩ := exists_opened vm before
  have hcycle : (vm.resume.vm.cycle 0).Refused vm.resume.vm f := by
    refine Vm.cycle_of_fault ?_ 0
    rw [Vm.resume_eq]
    exact hf
  generalize vm.resume.vm = now at hs hcycle ⊢
  let after := (startedOnce now .stepping .starting signals log).absorb (now.cycle 0)
  have hstep : (startedOnce now .stepping .starting signals log).step? (.thread ⟨1, .cpu⟩ 0) =
      some (startedOnce now .stopping .starting after.signals after.log) := by
    show some (taskStep _ ⟨1, .cpu⟩ 0) = some { after.setPhase ⟨1, .cpu⟩ .stopping with vm := now }
    simp only [taskStep, startedOnce, hcycle.result_eq]
    show some { after.setPhase ⟨1, .cpu⟩ .stopping with vm := (now.cycle 0).vm } = _
    rw [hcycle.vm_eq]
  have hbeat : (startedOnce now .stepping .starting signals log).beat? (.thread ⟨1, .cpu⟩ 0) =
      some ⟨⟨1, .cpu⟩, some (.fault f), [.error f]⟩ := by
    show some (Beat.mk _ (now.cycle 0).failure? (now.cycle 0).signals) = _
    rw [Outcome.failure?, hcycle.result_eq, hcycle.signals_eq]
  refine ⟨_, _, steps?_append.mpr ⟨_, hs, steps?_cons.mpr ⟨_, hstep, rfl⟩⟩, ?_⟩
  rw [beats_append hs, hb, beats_cons hstep, hbeat]
  rfl

end Player

end ChipEight
