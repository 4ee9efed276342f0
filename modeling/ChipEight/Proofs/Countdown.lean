import ChipEight.Proofs.Histories

/-!
# ChipEight.Proofs.Countdown — ticks in a row

`Vm.Ticked` says what a number of ticks leaves of a machine, and `tickSignals` what the tick with a
given number tells the host.  Main statement: both timers go down by one each tick and stop at zero,
every tick that finds the sound timer above zero beeps, the one that brings it to zero included, and
the first one shows a changed screen, after its beep (`ticks_count_down`).
-/

namespace ChipEight.Vm

variable {vm after : Vm} {n : Nat}

/-- What `n` ticks lead to: both timers are lower by `n`, or zero, no change of the screen is noted
any more if there was a tick, and nothing else is different. -/
structure Ticked (n : Nat) (vm after : Vm) : Prop where
  delay : after.machine.delay.toNat = vm.machine.delay.toNat - n
  sound : after.machine.sound.toNat = vm.machine.sound.toNat - n
  redraw : after.redraw = true ↔ vm.redraw = true ∧ n = 0
  rest_eq : after = { vm with
    machine := { vm.machine with
      delay := after.machine.delay
      sound := after.machine.sound }
    redraw := after.redraw }

/-- What tick number `k`, counted from zero, tells the host when only ticks come before it. -/
def tickSignals (vm : Vm) (k : Nat) : List Signal :=
  ((vm.afterAll (List.replicate k .tick)).perform .tick).signals

/-! ### One tick -/

/-- A timer at zero stays there. -/
theorem toNat_countDown (v : UInt8) : (if v = 0 then 0 else v - 1).toNat = v.toNat - 1 := by
  by_cases h : v = 0
  · rw [if_pos h, h]
    rfl
  · have hpos : (1 : UInt8) ≤ v := by
      refine UInt8.le_iff_toNat_le.mpr (Nat.one_le_iff_ne_zero.mpr fun hz => h ?_)
      exact UInt8.toNat_inj.mp hz
    rw [if_neg h, UInt8.toNat_sub_of_le _ _ hpos]
    rfl

theorem Ticked.refl (vm : Vm) : vm.Ticked 0 vm := ⟨rfl, rfl, by simp, rfl⟩

theorem Ticked.succ (h : vm.Ticked n after) : vm.Ticked (n + 1) (after.perform .tick).vm where
  delay := by
    refine (toNat_countDown after.machine.delay).trans ?_
    rw [h.delay, Nat.sub_sub]
  sound := by
    refine (toNat_countDown after.machine.sound).trans ?_
    rw [h.sound, Nat.sub_sub]
  redraw := by simp [perform, Outcome.map, tick]
  rest_eq := by
    rw [h.rest_eq]
    rfl

theorem sound_eq_zero_iff (vm : Vm) : vm.machine.sound = 0 ↔ vm.machine.sound.toNat = 0 :=
  UInt8.toNat_inj.symm

/-! ### Many ticks -/

theorem ticked_afterAll (vm : Vm) (n : Nat) : vm.Ticked n (vm.afterAll (List.replicate n .tick)) := by
  induction n with
  | zero => exact .refl vm
  | succ n ih =>
    rw [List.replicate_succ', afterAll_append]
    exact ih.succ

/-- A beep comes before the redraw signal. -/
theorem tickSignals_eq (vm : Vm) (k : Nat) :
    vm.tickSignals k =
      (if k < vm.machine.sound.toNat then [.beep] else []) ++
        if vm.redraw = true ∧ k = 0 then [.redraw] else [] := by
  have hticked := ticked_afterAll vm k
  have hsound : (vm.afterAll (List.replicate k .tick)).machine.sound = 0 ↔
      ¬ k < vm.machine.sound.toNat := by
    rw [sound_eq_zero_iff, hticked.sound]
    omega
  simp only [tickSignals, perform, tick, Outcome.map, hsound, hticked.redraw, ite_not]

theorem signals_ticks (vm : Vm) (n : Nat) :
    (vm.performAll (List.replicate n .tick)).signals = (List.range n).flatMap vm.tickSignals := by
  induction n generalizing vm with
  | zero => rfl
  | succ n ih =>
    rw [List.replicate_succ, performAll_cons, List.range_succ_eq_map, List.flatMap_cons,
      List.flatMap_map]
    exact congrArg (vm.tickSignals 0 ++ ·) (ih _)

theorem count_beep_tickSignals (vm : Vm) (k : Nat) :
    (vm.tickSignals k).count .beep = if k < vm.machine.sound.toNat then 1 else 0 := by
  rw [tickSignals_eq]
  split <;> split <;> rfl

theorem count_redraw_tickSignals (vm : Vm) (k : Nat) :
    (vm.tickSignals k).count .redraw = if vm.redraw = true ∧ k = 0 then 1 else 0 := by
  rw [tickSignals_eq]
  split <;> split <;> rfl

theorem count_beep_flatMap (vm : Vm) (n : Nat) :
    ((List.range n).flatMap vm.tickSignals).count .beep = min n vm.machine.sound.toNat := by
  induction n with
  | zero => exact (Nat.zero_min _).symm
  | succ n ih =>
    rw [List.range_succ, List.flatMap_append, List.flatMap_singleton, List.count_append, ih,
      count_beep_tickSignals]
    split <;> omega

theorem count_redraw_flatMap (vm : Vm) (n : Nat) :
    ((List.range n).flatMap vm.tickSignals).count .redraw =
      if vm.redraw = true ∧ 1 ≤ n then 1 else 0 := by
  induction n with
  | zero => simp
  | succ n ih =>
    rw [List.range_succ, List.flatMap_append, List.flatMap_singleton, List.count_append, ih,
      count_redraw_tickSignals]
    by_cases hr : vm.redraw = true
    · by_cases hn : n = 0 <;> simp [hr, hn]
    · simp [hr]

/-- After `n` ticks with nothing in between each timer is lower by `n`, or zero if it was not as high.
Tick number `k`, counted from zero, beeps if the sound timer was above `k`, and after that the first
one shows the screen if a change of it was noted; so there are as many beeps as ticks, or as the sound
timer had left, and one redraw signal at most.  No change is noted after a tick, and nothing else is
different from before. -/
theorem ticks_count_down (vm : Vm) (n : Nat) :
    let o := vm.performAll (List.replicate n .tick)
    (o.vm.machine.delay.toNat : Int) = max ((vm.machine.delay.toNat : Int) - n) 0 ∧
      (o.vm.machine.sound.toNat : Int) = max ((vm.machine.sound.toNat : Int) - n) 0 ∧
      o.signals = (List.range n).flatMap vm.tickSignals ∧
      (∀ k, vm.tickSignals k =
        (if k < vm.machine.sound.toNat then [.beep] else []) ++
          if vm.redraw = true ∧ k = 0 then [.redraw] else []) ∧
      o.signals.count .beep = min n vm.machine.sound.toNat ∧
      o.signals.count .redraw = (if vm.redraw = true ∧ 1 ≤ n then 1 else 0) ∧
      (o.vm.redraw = true ↔ vm.redraw = true ∧ n = 0) ∧
      o.vm = { vm with
        machine := { vm.machine with
          delay := o.vm.machine.delay
          sound := o.vm.machine.sound }
        redraw := o.vm.redraw } := by
  intro o
  have hticked : vm.Ticked n o.vm := ticked_afterAll vm n
  have hsignals : o.signals = (List.range n).flatMap vm.tickSignals := signals_ticks vm n
  have hdelay := hticked.delay
  have hsound := hticked.sound
  refine ⟨by omega, by omega, hsignals, tickSignals_eq vm, ?_, ?_, hticked.redraw,
    hticked.rest_eq⟩
  · rw [hsignals, count_beep_flatMap]
  · rw [hsignals, count_redraw_flatMap]

end ChipEight.Vm
