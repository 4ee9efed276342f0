import ChipEight.Proofs.AwaitKey
import ChipEight.Proofs.Frame
import ChipEight.Proofs.Steps

/-!
# ChipEight.Proofs.KeyHistory — the keypad and the history of keys

What the keypad holds can be read off the history.  A key is held from its press until it is let go
(`perform_isDown_iff`), and a press stays in the latch until another one, or until a wait for a key
takes it (`perform_latch_iff`); a load that is granted clears both.  Main statement: held keys and
latch are what the history since the last load makes them, the lists of held keys agree with them,
and the two skips on a key look at the same (`keypad_history`).
-/

namespace ChipEight

/-- The step brought a wait for a key to its end: the program went on from there. -/
def Step.EndsWait (s : Step) : Prop :=
  ∃ w, s.before.word? = some w ∧ Word.Fits w "Fx0A" ∧ s.after.pc ≠ s.before.pc

/-! ### Views of the keypad -/

namespace Keypad

theorem heldKeys_pairwise (p : Keypad) : p.heldKeys.Pairwise (· < ·) :=
  (List.pairwise_lt_finRange 16).filter _

theorem anyDown_iff {p : Keypad} : p.anyDown = true ↔ p.heldKeys ≠ [] := by
  have hzero : p.held = 0 ↔ p.heldKeys = [] := by
    rw [List.eq_nil_iff_forall_not_mem]
    constructor
    · intro h k hk
      have hdown := mem_heldKeys.mp hk
      simp [isDown, h] at hdown
    · intro h
      refine held_ext (q := idle) fun k => ?_
      rw [isDown_idle, ← Bool.not_eq_true, ← mem_heldKeys]
      exact h k
  rw [anyDown, bne_iff_ne, Ne, hzero]

end Keypad

namespace Vm

variable {vm : Vm} {k : Key}

/-! ### Held keys -/

theorem cycle_isDown (vm : Vm) (random : UInt8) (k : Key) :
    (vm.cycle random).vm.machine.keypad.isDown k = vm.machine.keypad.isDown k := by
  cases hf : vm.machine.fault? with
  | some f => rw [(cycle_of_fault hf random).vm_eq]
  | none =>
    obtain ⟨w, i, e, after, target, -, -, -, -, hx, -, hc⟩ := cycle_executed hf random
    have hkeep : (Part.held k).Same vm after := hx.keeps (.held k) nofun
    rw [hc]
    exact hkeep

theorem perform_isDown_of_executes {op : Operation} (hx : op.Executes) (vm : Vm) (k : Key) :
    (vm.perform op).vm.machine.keypad.isDown k = vm.machine.keypad.isDown k := by
  obtain ⟨r, rs, he⟩ := perform_of_executes hx vm
  rw [he]
  refine runFrom_invariant
    (P := fun now => now.machine.keypad.isDown k = vm.machine.keypad.isDown k) ?_ rfl .ok (r :: rs)
  intro now r' h
  exact (cycle_isDown now r' k).trans h

/-- A key is held once it was pressed, until it is let go or a program is installed. -/
theorem perform_isDown_iff (op : Operation) (vm : Vm) (k : Key) :
    (vm.perform op).vm.machine.keypad.isDown k = true ↔
      op = .keyDown k ∨
        vm.machine.keypad.isDown k = true ∧ ¬ op.Installs ∧ op ≠ .keyUp k := by
  by_cases hx : op.Executes
  · rw [perform_isDown_of_executes hx]
    cases op with
    | cycle random | run randoms => simp [Operation.Installs]
    | _ => cases hx
  · by_cases hop : op.Installs
    · obtain ⟨program, rfl, he⟩ := perform_of_installs hop vm
      rw [he]
      simp [installed, Machine.blank, hop]
    · rw [perform_aside hx hop]
      cases op with
      | keyDown j => simp [aside, keyDown, hop]
      | keyUp j =>
        simp [aside, keyUp, hop, and_comm]
      | _ => simp [aside, tick, Machine.tick, hop]

/-! ### The latch -/

/-- A cycle keeps the latch unless it ends a wait for a key. -/
theorem cycle_latch_iff {random : UInt8} {notice : Notice}
    (h : (vm.cycle random).result = .ok notice) (k : Key) :
    (vm.cycle random).vm.machine.keypad.latch = some k ↔
      vm.machine.keypad.latch = some k ∧
        ¬ (⟨vm.machine, (vm.cycle random).vm.machine⟩ : Step).EndsWait := by
  obtain ⟨w, i, e, after, target, hw, hd, -, -, hx, -, hc⟩ :=
    cycle_executed (fault?_eq_none_of_ok h) random
  by_cases hfit : Word.Fits w "Fx0A"
  · have hwait := Machine.awaits_of_fits hw hfit
    cases hl : vm.machine.keypad.latch with
    | none =>
      rw [cycle_of_awaits_of_none hwait hl]
      simp [hl]
    | some j =>
      have hends : (⟨vm.machine, (vm.cycle random).vm.machine⟩ : Step).EndsWait := by
        refine ⟨w, hw, hfit, ?_⟩
        rw [cycle_of_awaits_of_some hwait hl]
        simp
      have hempty : (vm.cycle random).vm.machine.keypad.latch = none := by
        rw [cycle_of_awaits_of_some hwait hl]
        rfl
      rw [hempty]
      simp [hends]
  · have hsame : (vm.cycle random).vm.machine.keypad.latch = vm.machine.keypad.latch := by
      rw [hc]
      refine hx.keeps .latch fun ht => ?_
      rw [Instr.encode_of_decode? hd] at ht
      cases ht with
      | latch hfit' => exact hfit hfit'
    have hnot : ¬ (⟨vm.machine, (vm.cycle random).vm.machine⟩ : Step).EndsWait := by
      rintro ⟨w', hw', hfit', -⟩
      obtain rfl := Option.some.inj (hw.symm.trans hw')
      exact hfit hfit'
    rw [hsame]
    simp [hnot]

theorem runFrom_latch_iff (notice : Notice) (randoms : List UInt8) (vm : Vm) (k : Key) :
    (runFrom notice randoms vm).vm.machine.keypad.latch = some k ↔
      vm.machine.keypad.latch = some k ∧ ∀ s ∈ vm.runSteps randoms, ¬ s.EndsWait := by
  induction randoms generalizing vm notice with
  | nil => simp [runFrom, runSteps]
  | cons r rs ih =>
    cases hc : (vm.cycle r).result with
    | ok n =>
      rw [runFrom_cons_of_ok hc, runSteps, hc]
      show (runFrom n rs (vm.cycle r).vm).vm.machine.keypad.latch = some k ↔ _
      rw [ih, cycle_latch_iff hc, List.forall_mem_cons, and_assoc]
    | error e =>
      obtain ⟨f, -, hf⟩ := cycle_result_eq_error_iff.mp hc
      rw [runFrom_cons_of_error hc, runSteps, hc, (cycle_of_fault hf r).vm_eq]
      simp

/-- A press is in the latch until the next press, until a wait for a key takes it or until a
program is installed. -/
theorem perform_latch_iff (op : Operation) (vm : Vm) (k : Key) :
    (vm.perform op).vm.machine.keypad.latch = some k ↔
      op = .keyDown k ∨ vm.machine.keypad.latch = some k ∧
        (¬ op.Installs ∧ op.pressed? = none) ∧ ∀ s ∈ vm.stepsOf op, ¬ s.EndsWait := by
  by_cases hx : op.Executes
  · cases op with
    | cycle r =>
      have hrun := runFrom_latch_iff .ok [r] vm k
      rw [runFrom_singleton] at hrun
      show (vm.cycle r).vm.machine.keypad.latch = some k ↔ _
      rw [hrun]
      simp [Operation.Installs, Operation.pressed?, stepsOf]
    | run rs =>
      show (runFrom .ok rs vm).vm.machine.keypad.latch = some k ↔ _
      rw [runFrom_latch_iff]
      simp [Operation.Installs, Operation.pressed?, stepsOf]
    | _ => cases hx
  · by_cases hop : op.Installs
    · obtain ⟨program, rfl, he⟩ := perform_of_installs hop vm
      rw [he]
      simp [installed, Machine.blank, Keypad.idle, hop]
    · rw [perform_latch hx hop]
      cases op with
      | cycle r => exact absurd trivial hx
      | run rs =>
        obtain rfl : rs = [] := Classical.not_not.mp hx
        simp [Operation.Installs, Operation.pressed?, stepsOf, runSteps]
      | _ => simp [Operation.pressed?, stepsOf, hop]

/-! ### Skips on a key -/

theorem cycle_of_skip {w : UInt16} {op : SingleOp} {down : Bool} {random : UInt8}
    (hw : vm.machine.word? = some w) (hd : Instr.decode? w = some (.single op (Word.x w)))
    (hrun : (Act.execSingle op (Word.x w)).run vm = .ok { route := .skipIf down } vm) :
    (vm.cycle random).result = .ok .ok ∧
      (vm.cycle random).vm.machine.pc = vm.machine.pc + if down then 4 else 2 := by
  have hpc := Machine.pc_le_of_word? hw
  have ht : (Route.skipIf down).target vm.machine.pc =
      .ok (vm.machine.pc + if down then 4 else 2) := by
    have hlt : ∀ n ≤ 4, vm.machine.pc + n < UInt64.size := by
      intro n hn
      simp only [UInt64.size]
      omega
    cases down with
    | true => exact Checked.add_of_lt (hlt 4 (by decide))
    | false => exact Checked.add_of_lt (hlt 2 (by decide))
  rw [cycle_of_run_exec (Machine.next_of_decode? hw hd) hrun ht]
  exact ⟨rfl, rfl⟩

theorem cycle_of_fits_skipDown {w : UInt16} (hw : vm.machine.word? = some w)
    (hfit : Word.Fits w "Ex9E") (random : UInt8) :
    (vm.cycle random).result = .ok .ok ∧
      (vm.cycle random).vm.machine.pc =
        vm.machine.pc + if vm.machine.keyDown (vm.machine.reg (Word.x w)) then 4 else 2 :=
  cycle_of_skip hw (Instr.decode?_of_fits (i := .single .skipDown 0) hfit rfl) rfl

theorem cycle_of_fits_skipUp {w : UInt16} (hw : vm.machine.word? = some w)
    (hfit : Word.Fits w "ExA1") (random : UInt8) :
    (vm.cycle random).result = .ok .ok ∧
      (vm.cycle random).vm.machine.pc =
        vm.machine.pc + if !vm.machine.keyDown (vm.machine.reg (Word.x w)) then 4 else 2 :=
  cycle_of_skip hw (Instr.decode?_of_fits (i := .single .skipUp 0) hfit rfl) rfl

/-! ### The history of keys -/

theorem kept_held_iff (ops : List Operation) (vm : Vm) (k : Key) :
    Kept (fun op _ => ¬ op.Installs ∧ op ≠ .keyUp k) ops vm ↔
      ∀ op ∈ ops, ¬ op.Installs ∧ op ≠ .keyUp k := by
  induction ops generalizing vm with
  | nil => simp [Kept]
  | cons op ops ih => rw [Kept, ih, List.forall_mem_cons]

theorem kept_latch_iff (ops : List Operation) (vm : Vm) :
    Kept (fun op vm => (¬ op.Installs ∧ op.pressed? = none) ∧
        ∀ s ∈ vm.stepsOf op, ¬ s.EndsWait) ops vm ↔
      (∀ op ∈ ops, ¬ op.Installs ∧ op.pressed? = none) ∧ ∀ s ∈ vm.steps ops, ¬ s.EndsWait := by
  induction ops generalizing vm with
  | nil => simp [Kept, steps]
  | cons op ops ih =>
    rw [Kept, ih, steps, List.forall_mem_append, List.forall_mem_cons, and_and_and_comm]

/-- After every history of a new machine, a key is held exactly if it was pressed, and since then
neither let go nor a program installed, and the latch has a key exactly if that key was pressed
last, and since then no wait for a key came to its end and no program was installed.  The held keys
are listed in ascending order, and a key is reported down when there are any.  The skips on a key
never fail; one skips and the other does not if the register names a key that is held, which no
value past fifteen does. -/
theorem keypad_history (config : Config) (ops : List Operation) :
    let vm := (new config).afterAll ops
    let pad := vm.machine.keypad
    (∀ k, pad.isDown k = true ↔
      ∃ front late, ops = front ++ .keyDown k :: late ∧
        ∀ op ∈ late, ¬ op.Installs ∧ op ≠ .keyUp k) ∧
    (∀ k, pad.latch = some k ↔
      ∃ front late, ops = front ++ .keyDown k :: late ∧
        (∀ op ∈ late, ¬ op.Installs ∧ op.pressed? = none) ∧
        ∀ s ∈ ((new config).afterAll (front ++ [.keyDown k])).steps late, ¬ s.EndsWait) ∧
    (∀ k, k ∈ pad.heldKeys ↔ pad.isDown k = true) ∧
    pad.heldKeys.Pairwise (· < ·) ∧
    (pad.anyDown = true ↔ pad.heldKeys ≠ []) ∧
    ∀ w random, vm.machine.word? = some w →
      let o := vm.cycle random
      let named := ∃ k : Key, k.val = (vm.machine.reg (Word.x w)).toNat ∧ pad.isDown k = true
      (Word.Fits w "Ex9E" → o.result = .ok .ok ∧
        (named → o.vm.machine.pc = vm.machine.pc + 4) ∧
        (¬ named → o.vm.machine.pc = vm.machine.pc + 2)) ∧
      (Word.Fits w "ExA1" → o.result = .ok .ok ∧
        (named → o.vm.machine.pc = vm.machine.pc + 2) ∧
        (¬ named → o.vm.machine.pc = vm.machine.pc + 4)) := by
  intro vm pad
  refine ⟨?_, ?_, fun k => Keypad.mem_heldKeys, pad.heldKeys_pairwise, Keypad.anyDown_iff, ?_⟩
  · intro k
    have hsince := afterAll_iff_since (P := fun now => now.machine.keypad.isDown k = true)
      (fun now op => perform_isDown_iff op now k) ops (new config)
    have hnew : (new config).machine.keypad.isDown k = false := Keypad.isDown_idle k
    simpa [hnew, kept_held_iff] using hsince
  · intro k
    have hsince := afterAll_iff_since (P := fun now => now.machine.keypad.latch = some k)
      (fun now op => perform_latch_iff op now k) ops (new config)
    have hnew : (new config).machine.keypad.latch = none := rfl
    simpa [hnew, kept_latch_iff] using hsince
  · intro w random hw o named
    have hnamed : vm.machine.keyDown (vm.machine.reg (Word.x w)) = true ↔ named :=
      Machine.keyDown_eq_true_iff
    refine ⟨fun hfit => ?_, fun hfit => ?_⟩
    · obtain ⟨hok, hpc⟩ := cycle_of_fits_skipDown hw hfit random
      refine ⟨hok, fun h => ?_, fun h => ?_⟩
      · rw [hpc, hnamed.mpr h]
        rfl
      · rw [hpc, Bool.eq_false_iff.mpr (mt hnamed.mp h)]
        rfl
    · obtain ⟨hok, hpc⟩ := cycle_of_fits_skipUp hw hfit random
      refine ⟨hok, fun h => ?_, fun h => ?_⟩
      · rw [hpc, hnamed.mpr h]
        rfl
      · rw [hpc, Bool.eq_false_iff.mpr (mt hnamed.mp h)]
        rfl

/-- A program that begins with a skip on the key named by `V0`.  That key is held, a later press was
let go and is in the latch all the same, and a program that is too large changes nothing. -/
theorem keypad_history_skip :
    let late : List Operation := [.keyDown 7, .keyUp 7, .load (List.replicate 3584 0), .resume]
    let vm := (new {}).afterAll (.load [0xE0, 0x9E] :: .keyDown 0 :: late)
    vm.machine.keypad.isDown 0 = true ∧ vm.machine.keypad.latch = some 7 ∧
      vm.machine.keypad.anyDown = true ∧ (vm.cycle 0).vm.machine.pc = vm.machine.pc + 4 := by
  have hlength : Machine.programLimit < (List.replicate 3584 (0 : UInt8)).length := by
    rw [List.length_replicate]
    decide
  generalize List.replicate 3584 (0 : UInt8) = large at hlength ⊢
  intro late vm
  have hlate : ∀ op ∈ late, ¬ op.Installs ∧ ¬ op.Executes := by
    simp [late, Operation.Installs, Operation.Executes, hlength]
  have hs : ((new {}).installed [0xE0, 0x9E]).machine.SameProgram vm.machine := by
    have hload : vm = ((new {}).installed [0xE0, 0x9E]).afterAll (.keyDown 0 :: late) := by
      show (new {}).afterAll (.load [0xE0, 0x9E] :: .keyDown 0 :: late) = _
      rw [afterAll_cons, perform_load_of_fits (by decide)]
    rw [hload]
    refine afterAll_invariant
      (I := fun now => ((new {}).installed [0xE0, 0x9E]).machine.SameProgram now.machine)
      (A := fun op => ¬ op.Installs ∧ ¬ op.Executes) ?_ (.refl _) ?_
    · intro now op hnow hop
      exact hnow.trans (perform_sameProgram hop.2 hop.1 now)
    · rw [List.forall_mem_cons]
      exact ⟨⟨not_false, not_false⟩, hlate⟩
  have hw : vm.machine.word? = some 0xE09E :=
    hs.word?_eq.trans (word?_installed (new {}) 0xE0 0x9E [])
  have hreg : (vm.machine.reg (Word.x 0xE09E)).toNat = 0 := by
    rw [Machine.reg, hs.regs_eq]
    rfl
  obtain ⟨hheld, hlatch, hlisted, -, hany, hskip⟩ :=
    keypad_history {} (.load [0xE0, 0x9E] :: .keyDown 0 :: late)
  have hdown : vm.machine.keypad.isDown 0 = true := by
    refine (hheld 0).mpr ⟨[.load [0xE0, 0x9E]], late, rfl, fun op hop => ⟨(hlate op hop).1, ?_⟩⟩
    rintro rfl
    simp [late] at hop
  refine ⟨hdown, ?_, ?_, ?_⟩
  · refine (hlatch 7).mpr ⟨[.load [0xE0, 0x9E], .keyDown 0], _, rfl, ?_, ?_⟩
    · simp [Operation.Installs, Operation.pressed?, hlength]
    · simp [steps, stepsOf]
  · exact hany.mpr (List.ne_nil_of_mem ((hlisted 0).mpr hdown))
  · obtain ⟨-, hnamed, -⟩ := (hskip 0xE09E 0 hw).1 (by decide)
    exact hnamed ⟨0, hreg.symm, hdown⟩

end Vm

end ChipEight
