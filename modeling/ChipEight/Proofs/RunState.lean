import ChipEight.Proofs.AwaitKey
import ChipEight.Proofs.Frame

/-!
# ChipEight.Proofs.RunState — playing, and falling asleep

The clocks are started and stopped by the host alone, and a playing machine is marked asleep by its
program.  Main statement: after every history the host finds the clocks as it left them, and a
machine that is asleep stands at a wait for a key that cannot fail (`run_state_invariant`).
-/

namespace ChipEight

/-- The operation leaves the clocks in a state of its own, whatever it was before: a start, a stop,
or a load of a program that fits. -/
def Operation.isSwitch : Operation → Bool
  | .load program => program.length ≤ Machine.programLimit
  | .resume | .suspend => true
  | _ => false

/-- A playing machine that sleeps has a wait for a key before it. -/
def Vm.SleepsAtWait (vm : Vm) : Prop := vm.state = .playing true → ∃ x, vm.machine.Awaits x

namespace RunState

theorem setAsleep_eq_playing_iff {s : RunState} {asleep asleep' : Bool} :
    s.setAsleep asleep = .playing asleep' ↔ s.isPlaying = true ∧ asleep = asleep' := by
  cases s <;> simp [setAsleep, isPlaying]

@[simp] theorem isPlaying_started (s : RunState) : s.started.isPlaying = true := by
  cases s <;> rfl

theorem started_eq_playing_true_iff {s : RunState} :
    s.started = .playing true ↔ s = .playing true := by
  cases s <;> simp [started]

end RunState

theorem Machine.Awaits.fits {m : Machine} {x : Reg} {w : UInt16} (h : m.Awaits x)
    (hw : m.word? = some w) : Word.Fits w "Fx0A" := by
  obtain ⟨w', hw', hd⟩ := h
  obtain rfl := Option.some.inj (hw.symm.trans hw')
  exact Instr.fits_of_decode? hd

namespace Vm

variable {vm : Vm}

/-! ### The clocks -/

theorem runFrom_isPlaying (notice : Notice) (randoms : List UInt8) (vm : Vm) :
    (runFrom notice randoms vm).vm.isPlaying = vm.isPlaying := by
  refine runFrom_invariant (P := fun now => now.isPlaying = vm.isPlaying) ?_ rfl notice randoms
  intro now r h
  exact (cycle_quiet now r).1.trans h

/-- A switch starts the clocks or stops them, and all else leaves them alone. -/
theorem perform_isPlaying (op : Operation) (vm : Vm) :
    (vm.perform op).vm.isPlaying = if op.isSwitch then op == .resume else vm.isPlaying := by
  by_cases hx : op.Executes
  · obtain ⟨r, rs, he⟩ := perform_of_executes hx vm
    have hswitch : op.isSwitch = false := by
      cases op <;> first | rfl | cases hx
    rw [he, hswitch]
    exact runFrom_isPlaying .ok (r :: rs) vm
  · by_cases hop : op.Installs
    · obtain ⟨program, rfl, he⟩ := perform_of_installs hop vm
      have hswitch : (Operation.load program).isSwitch = true := decide_eq_true hop
      rw [he, hswitch]
      rfl
    · rw [perform_aside hx hop]
      cases op with
      | load program =>
        have hswitch : (Operation.load program).isSwitch = false := decide_eq_false hop
        rw [hswitch]
        rfl
      | resume => exact RunState.isPlaying_started vm.state
      | _ => rfl

/-- The last switch decides. -/
theorem afterAll_isPlaying (ops : List Operation) (vm : Vm) :
    (vm.afterAll ops).isPlaying =
      (ops.filter Operation.isSwitch).getLast?.elim vm.isPlaying (· == .resume) := by
  rw [← List.filterMap_eq_filter]
  refine afterAll_latest (f := isPlaying) (A := fun _ => True) ?_ (fun _ _ => trivial) vm
  intro now op _
  rw [perform_isPlaying]
  by_cases h : op.isSwitch = true
  · simp [Option.guard, h]
  · simp [Option.guard, h]

/-! ### Asleep -/

/-- Only a wait for a key puts the machine to sleep, and it wakes up when the wait is over. -/
theorem cycle_sleepsAtWait (h : vm.SleepsAtWait) (random : UInt8) :
    (vm.cycle random).vm.SleepsAtWait := by
  cases hf : vm.machine.fault? with
  | some f =>
    rw [(cycle_of_fault hf random).vm_eq]
    exact h
  | none =>
    obtain ⟨w, i, e, after, target, hw, hd, -, -, hx, -, hc⟩ := cycle_executed hf random
    by_cases hfit : Word.Fits w "Fx0A"
    · have hwait := Machine.awaits_of_fits hw hfit
      cases hl : vm.machine.keypad.latch with
      | none =>
        rw [cycle_of_awaits_of_none hwait hl]
        intro _
        exact ⟨_, hwait⟩
      | some k =>
        rw [cycle_of_awaits_of_some hwait hl]
        intro hsleep
        have hwrong := (RunState.setAsleep_eq_playing_iff.mp hsleep).2
        cases hwrong
    · have hstate : after.state = vm.state := by
        refine hx.keeps .runState ?_
        rw [Instr.encode_of_decode? hd]
        intro ht
        cases ht with
        | runState hfit' => exact hfit hfit'
      rw [hc]
      intro hsleep
      -- the machine was asleep before, so the word is a wait after all
      obtain ⟨x, hwait⟩ := h (hstate.symm.trans hsleep)
      exact absurd (hwait.fits hw) hfit

/-- No other operation puts the machine to sleep. -/
theorem aside_state_eq_asleep {op : Operation} (h : (vm.aside op).state = .playing true) :
    vm.state = .playing true := by
  cases op with
  | resume => exact RunState.started_eq_playing_true_iff.mp h
  | suspend => cases h
  | _ => exact h

theorem perform_sleepsAtWait (h : vm.SleepsAtWait) (op : Operation) :
    (vm.perform op).vm.SleepsAtWait := by
  by_cases hx : op.Executes
  · obtain ⟨r, rs, he⟩ := perform_of_executes hx vm
    rw [he]
    exact runFrom_invariant (P := SleepsAtWait) (fun _ r hs => cycle_sleepsAtWait hs r) h .ok
      (r :: rs)
  · by_cases hop : op.Installs
    · obtain ⟨program, -, he⟩ := perform_of_installs hop vm
      rw [he]
      intro hsleep
      cases hsleep
    · intro hsleep
      rw [perform_aside hx hop] at hsleep
      obtain ⟨x, hwait⟩ := h (aside_state_eq_asleep hsleep)
      exact ⟨x, (perform_sameProgram hx hop vm).awaits hwait⟩

/-- After every history of a new machine the clocks run exactly if the last switch was a start.  If
the machine is asleep, there is a wait for a key within memory at the program counter, and the next
cycle does not fail: it goes on waiting, or wakes the machine up if a press is latched. -/
theorem run_state_invariant (config : Config) (ops : List Operation) :
    let vm := (new config).afterAll ops
    (vm.isPlaying = true ↔ (ops.filter Operation.isSwitch).getLast? = some .resume) ∧
      (vm.state = .playing true →
        vm.machine.pc + 2 ≤ 4096 ∧ (∃ x, vm.machine.Awaits x) ∧
          ∀ random,
            (vm.machine.keypad.latch = none →
              (vm.cycle random).result = .ok .keyWait ∧
                (vm.cycle random).vm.state = .playing true) ∧
            (vm.machine.keypad.latch ≠ none →
              (vm.cycle random).result = .ok .ok ∧
                (vm.cycle random).vm.state = .playing false)) := by
  intro vm
  have hplaying : vm.isPlaying =
      (ops.filter Operation.isSwitch).getLast?.elim false (· == .resume) :=
    afterAll_isPlaying ops (new config)
  have hnew : (new config).SleepsAtWait := fun hsleep => by cases hsleep
  have hsleeps : vm.SleepsAtWait :=
    afterAll_invariant (I := SleepsAtWait) (A := fun _ => True)
      (fun _ op h _ => perform_sleepsAtWait h op) hnew (fun _ _ => trivial)
  refine ⟨?_, ?_⟩
  · rw [hplaying]
    cases (ops.filter Operation.isSwitch).getLast? with
    | none => simp
    | some op => simp
  · intro hstate
    obtain ⟨x, hwait⟩ := hsleeps hstate
    have hpc : vm.machine.pc + 2 ≤ 4096 := by
      have := hwait.pc_le
      omega
    refine ⟨hpc, ⟨x, hwait⟩, fun random => ⟨?_, ?_⟩⟩
    · intro hl
      rw [cycle_of_awaits_of_none hwait hl, hstate]
      exact ⟨rfl, rfl⟩
    · intro hl
      obtain ⟨k, hk⟩ := Option.ne_none_iff_exists'.mp hl
      rw [cycle_of_awaits_of_some hwait hk, hstate]
      exact ⟨rfl, rfl⟩

/-- A program that is nothing but a wait for a key, after a start and a cycle. -/
theorem run_state_invariant_asleep :
    let vm := (new {}).afterAll [.load [0xF0, 0x0A], .resume, .cycle 0]
    vm.isPlaying = true ∧ vm.machine.pc + 2 ≤ 4096 ∧ (vm.cycle 7).result = .ok .keyWait ∧
      (vm.cycle 7).vm.state = .playing true := by
  have hinv := run_state_invariant {} [.load [0xF0, 0x0A], .resume, .cycle 0]
  have hwait : ((new {}).installed [0xF0, 0x0A]).machine.Awaits 0 :=
    ⟨_, word?_installed (new {}) 0xF0 0x0A [], by decide⟩
  have hcycle : ∀ vm : Vm, vm.machine.Awaits 0 → vm.machine.keypad.latch = none →
      (vm.perform (.cycle 0)).vm = { vm with state := vm.state.setAsleep true } := by
    intro vm hw hl
    show (vm.cycle 0).vm = _
    rw [cycle_of_awaits_of_none hw hl]
  have hvm : (new {}).afterAll [.load [0xF0, 0x0A], .resume, .cycle 0] =
      { (new {}).installed [0xF0, 0x0A] with state := .playing true } := by
    have hresume : (((new {}).installed [0xF0, 0x0A]).perform .resume).vm =
        { (new {}).installed [0xF0, 0x0A] with state := .playing false } := rfl
    rw [afterAll_cons, perform_load_of_fits (by decide), afterAll_cons, hresume, afterAll_cons,
      afterAll_nil]
    exact hcycle _ hwait rfl
  rw [hvm] at hinv ⊢
  obtain ⟨hplaying, hasleep⟩ := hinv
  obtain ⟨hpc, -, hnext⟩ := hasleep rfl
  exact ⟨hplaying.mpr (by decide), hpc, (hnext 7).1 rfl⟩

end Vm

end ChipEight
