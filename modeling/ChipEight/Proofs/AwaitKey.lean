import ChipEight.Proofs.Footprint
import ChipEight.Proofs.Failure

/-!
# ChipEight.Proofs.AwaitKey — waiting for a key

A program waits for a key by executing the same word again and again until a press is latched.
`cycle_of_awaits_of_none` and `cycle_of_awaits_of_some` say what a cycle on that word comes to, and
`afterAll_latch` which press is latched in the meantime.  Main statement: the program stands still
until there is a press, then gets the key pressed last, held or not, and the next wait needs a press
of its own (`await_key_protocol`).
-/

namespace ChipEight

/-- At the program counter there is a wait for a key, which is to go to register `x`. -/
def Machine.Awaits (m : Machine) (x : Reg) : Prop :=
  ∃ w, m.word? = some w ∧ Instr.decode? w = some (.single .awaitKey x)

/-- The key that an operation presses. -/
def Operation.pressed? : Operation → Option Key
  | .keyDown k => some k
  | _ => none

/-- Timers, redraw note, held keys and run state apart, the machine is as it was. -/
structure Vm.Unmoved (before after : Vm) : Prop where
  program : before.machine.SameProgram after.machine
  latch_eq : after.machine.keypad.latch = before.machine.keypad.latch
  config_eq : after.config = before.config

namespace Vm.Unmoved

theorem refl (vm : Vm) : vm.Unmoved vm := ⟨.refl _, rfl, rfl⟩

theorem trans {vm vm' vm'' : Vm} (h : vm.Unmoved vm') (h' : vm'.Unmoved vm'') :
    vm.Unmoved vm'' where
  program := h.program.trans h'.program
  latch_eq := h'.latch_eq.trans h.latch_eq
  config_eq := h'.config_eq.trans h.config_eq

end Vm.Unmoved

namespace Machine

variable {m m' : Machine} {x : Reg}

theorem Awaits.next_eq (h : m.Awaits x) : m.next = .ok (.single .awaitKey x) := by
  obtain ⟨w, hw, hd⟩ := h
  exact next_of_decode? hw hd

theorem Awaits.pc_le (h : m.Awaits x) : m.pc ≤ 4094 := by
  obtain ⟨w, hw, -⟩ := h
  exact pc_le_of_word? hw

theorem SameProgram.awaits (hs : m.SameProgram m') (h : m.Awaits x) : m'.Awaits x := by
  obtain ⟨w, hw, hd⟩ := h
  exact ⟨w, hs.word?_eq.trans hw, hd⟩

/-- Nothing else has the form of a wait. -/
theorem awaits_of_fits {w : UInt16} (hw : m.word? = some w) (hf : Word.Fits w "Fx0A") :
    m.Awaits (Word.x w) :=
  ⟨w, hw, Instr.decode?_of_fits (i := .single .awaitKey 0) hf rfl⟩

end Machine

namespace Vm

variable {vm : Vm} {x : Reg}

/-! ### One cycle -/

/-- Without a press the cycle leaves everything to the next one. -/
theorem cycle_of_awaits_of_none (h : vm.machine.Awaits x) (hl : vm.machine.keypad.latch = none)
    (random : UInt8) :
    vm.cycle random =
      ⟨{ vm with state := vm.state.setAsleep true }, .ok .keyWait, [],
        [.executing vm.machine.pc (.single .awaitKey x)]⟩ :=
  cycle_of_run_exec h.next_eq (Act.run_execAwaitKey_of_none hl) rfl

/-- The latched press is taken, and the program moves on. -/
theorem cycle_of_awaits_of_some {k : Key} (h : vm.machine.Awaits x)
    (hl : vm.machine.keypad.latch = some k) (random : UInt8) :
    vm.cycle random =
      ⟨{ vm with
          machine := { vm.machine.setReg x (UInt8.ofNat k) with
            pc := vm.machine.pc + 2
            keypad := vm.machine.keypad.unlatch }
          state := vm.state.setAsleep false }, .ok .ok, [],
        [.executing vm.machine.pc (.single .awaitKey x)]⟩ := by
  have hpc : vm.machine.pc + 2 < 2 ^ 64 := by
    have := h.pc_le
    omega
  exact cycle_of_run_exec h.next_eq (Act.run_execAwaitKey_of_some hl) (Checked.add_of_lt hpc)

theorem cycle_unmoved (h : vm.machine.Awaits x) (hl : vm.machine.keypad.latch = none)
    (random : UInt8) : vm.Unmoved (vm.cycle random).vm := by
  rw [cycle_of_awaits_of_none h hl]
  exact ⟨.refl _, rfl, rfl⟩

/-- So does every cycle of a run. -/
theorem runFrom_of_awaits_of_none (h : vm.machine.Awaits x) (hl : vm.machine.keypad.latch = none)
    (notice : Notice) (randoms : List UInt8) :
    (runFrom notice randoms vm).result = .ok (if randoms = [] then notice else .keyWait) ∧
      vm.Unmoved (runFrom notice randoms vm).vm := by
  induction randoms generalizing vm notice with
  | nil => exact ⟨rfl, .refl vm⟩
  | cons r rs ih =>
    have hc : (vm.cycle r).result = .ok .keyWait := by rw [cycle_of_awaits_of_none h hl]
    have hu := cycle_unmoved h hl r
    obtain ⟨hr, hus⟩ := ih (hu.program.awaits h) (hu.latch_eq.trans hl) .keyWait
    rw [ite_self] at hr
    rw [runFrom_cons_of_ok hc, if_neg (List.cons_ne_nil r rs)]
    exact ⟨hr, hu.trans hus⟩

/-! ### What gets into the latch -/

/-- A press is latched, and nothing else gets into the latch. -/
theorem perform_latch {op : Operation} (hx : ¬ op.Executes) (hop : ¬ op.Installs) (vm : Vm) :
    (vm.perform op).vm.machine.keypad.latch =
      op.pressed?.elim vm.machine.keypad.latch some := by
  rw [perform_aside hx hop]
  cases op <;> rfl

/-- The latest press is latched. -/
theorem afterAll_latch {ops : List Operation}
    (hops : ∀ op ∈ ops, ¬ op.Installs ∧ ¬ op.Executes) (vm : Vm) :
    (vm.afterAll ops).machine.keypad.latch =
      (ops.filterMap Operation.pressed?).getLast?.elim vm.machine.keypad.latch some :=
  afterAll_latest (f := fun now => now.machine.keypad.latch)
    (fun now _ hop => perform_latch hop.2 hop.1 now) hops vm

/-- No instruction presses a key. -/
theorem cycle_latch_of_none (hl : vm.machine.keypad.latch = none) (random : UInt8) :
    (vm.cycle random).vm.machine.keypad.latch = none := by
  cases hf : vm.machine.fault? with
  | some f =>
    rw [(cycle_of_fault hf random).vm_eq]
    exact hl
  | none =>
    obtain ⟨w, i, e, after, target, hw, hd, -, -, hx, -, hc⟩ := cycle_executed hf random
    by_cases hfit : Word.Fits w "Fx0A"
    · rw [cycle_of_awaits_of_none (Machine.awaits_of_fits hw hfit) hl]
      exact hl
    · have hkeep : ¬ vm.machine.Touches i.encode .latch := by
        rw [Instr.encode_of_decode? hd]
        intro ht
        cases ht with
        | latch h => exact hfit h
      rw [hc]
      exact (hx.keeps .latch hkeep).trans hl

/-- An empty latch stays empty as long as no key is pressed. -/
theorem perform_latch_of_none (hl : vm.machine.keypad.latch = none) {op : Operation}
    (hp : op.pressed? = none) : (vm.perform op).vm.machine.keypad.latch = none := by
  by_cases hx : op.Executes
  · obtain ⟨r, rs, he⟩ := perform_of_executes hx vm
    rw [he]
    exact runFrom_invariant (P := fun vm => vm.machine.keypad.latch = none)
      (fun _ r h => cycle_latch_of_none h r) hl .ok (r :: rs)
  · by_cases hop : op.Installs
    · obtain ⟨program, -, he⟩ := perform_of_installs hop vm
      rw [he]
      rfl
    · rw [perform_latch hx hop, hp]
      exact hl

/-! ### The protocol -/

/-- One operation on a machine that waits and is not given a key. -/
theorem perform_of_awaits_of_none (h : vm.machine.Awaits x) (hl : vm.machine.keypad.latch = none)
    {op : Operation} (hop : ¬ op.Installs) (hp : op.pressed? = none) :
    (op.Executes → (vm.perform op).result = .ok (.notice .keyWait)) ∧
      vm.Unmoved (vm.perform op).vm := by
  by_cases hx : op.Executes
  · obtain ⟨r, rs, he⟩ := perform_of_executes hx vm
    obtain ⟨hr, hu⟩ := runFrom_of_awaits_of_none h hl .ok (r :: rs)
    rw [he]
    exact ⟨fun _ => congrArg (Except.map Answer.notice) hr, hu⟩
  · refine ⟨fun hx' => absurd hx' hx, perform_sameProgram hx hop vm, ?_, ?_⟩
    · rw [perform_latch hx hop, hp]
      rfl
    · rw [perform_aside hx hop]
      cases op <;> rfl

/-- Any number of them. -/
theorem performAll_of_awaits_of_none (h : vm.machine.Awaits x)
    (hl : vm.machine.keypad.latch = none) {polls : List Operation}
    (hpolls : ∀ op ∈ polls, ¬ op.Installs ∧ op.pressed? = none) :
    List.Forall₂ (fun op r => op.Executes → r = .ok (.notice .keyWait)) polls
        (vm.performAll polls).result ∧
      vm.Unmoved (vm.performAll polls).vm := by
  refine performAll_steady (I := vm.Unmoved) ?_ (.refl vm) hpolls
  intro now op hnow hop
  obtain ⟨hr, hu⟩ := perform_of_awaits_of_none (hnow.program.awaits h) (hnow.latch_eq.trans hl)
    hop.1 hop.2
  exact ⟨hr, hnow.trans hu⟩

/-- A machine that waits for a key and has no press latched tells so at every cycle and stands
still, whatever the host does short of pressing a key or installing a program.  Once keys are
pressed, with anything but cycles and loads in between, the next cycle gives the program the key
pressed last, whether it is still held or not.  The latch is empty then, and whatever the host does
without pressing a key, the next wait stands still again. -/
theorem await_key_protocol (h : vm.machine.Awaits x) (hl : vm.machine.keypad.latch = none)
    {polls : List Operation} (hpolls : ∀ op ∈ polls, ¬ op.Installs ∧ op.pressed? = none) :
    let waiting := vm.performAll polls
    List.Forall₂ (fun op r => op.Executes → r = .ok (.notice .keyWait)) polls waiting.result ∧
      vm.Unmoved waiting.vm ∧
      ∀ (presses : List Operation) (k : Key) (random : UInt8),
        (∀ op ∈ presses, ¬ op.Installs ∧ ¬ op.Executes) →
        (presses.filterMap Operation.pressed?).getLast? = some k →
        let pressed := waiting.vm.afterAll presses
        let o := pressed.cycle random
        o.result = .ok .ok ∧
          { vm.machine.setReg x (UInt8.ofNat k) with pc := vm.machine.pc + 2 }.SameProgram
            o.vm.machine ∧
          o.vm.machine.keypad = { held := pressed.machine.keypad.held, latch := none } ∧
          ∀ later : List Operation, (∀ op ∈ later, op.pressed? = none) →
            let next := o.vm.afterAll later
            ∀ y, next.machine.Awaits y → ∀ random,
              (next.cycle random).result = .ok .keyWait ∧
                next.Unmoved (next.cycle random).vm := by
  intro waiting
  obtain ⟨hanswers, hu⟩ := performAll_of_awaits_of_none h hl hpolls
  refine ⟨hanswers, hu, ?_⟩
  intro presses k random hpresses hk pressed o
  have hs : vm.machine.SameProgram pressed.machine := by
    refine afterAll_invariant (I := fun now => vm.machine.SameProgram now.machine) ?_ hu.program
      hpresses
    intro now op hnow hop
    exact hnow.trans (perform_sameProgram hop.2 hop.1 now)
  have hlatch : pressed.machine.keypad.latch = some k := by
    show (waiting.vm.afterAll presses).machine.keypad.latch = _
    rw [afterAll_latch hpresses, hk]
    rfl
  have ho : o = _ := cycle_of_awaits_of_some (hs.awaits h) hlatch random
  have hempty : o.vm.machine.keypad.latch = none := by rw [ho]; rfl
  refine ⟨by rw [ho], ?_, by rw [ho]; rfl, ?_⟩
  · rw [ho]
    refine ⟨?_, ?_, hs.index_eq, hs.memory_eq, hs.stack_eq, hs.screen_eq⟩
    · show pressed.machine.pc + 2 = vm.machine.pc + 2
      rw [hs.pc_eq]
    · show pressed.machine.regs.set x _ = vm.machine.regs.set x _
      rw [hs.regs_eq]
  · intro later hlater next y hy random'
    have hnone : next.machine.keypad.latch = none :=
      afterAll_invariant (I := fun now => now.machine.keypad.latch = none)
        (fun _ _ hnow hp => perform_latch_of_none hnow hp) hempty hlater
    refine ⟨?_, cycle_unmoved hy hnone random'⟩
    rw [cycle_of_awaits_of_none hy hnone]

/-- Two waits on end: the first one polled twice, with a tick and a start in between, then given the
second of two keys, which was let go already; the other one stands still while the first key is
held. -/
theorem await_key_protocol_two :
    let vm := ((new {}).load [0xF0, 0x0A, 0xF1, 0x0A]).vm
    let waiting := vm.performAll [.cycle 0, .tick, .resume, .cycle 0]
    let o := (waiting.vm.afterAll [.keyDown 4, .suspend, .keyDown 7, .keyUp 7]).cycle 0
    vm.Unmoved waiting.vm ∧ o.vm.machine.reg 0 = 7 ∧
      ((o.vm.afterAll [.tick]).cycle 0).result = .ok .keyWait := by
  intro vm waiting o
  have hvm : vm = (new {}).installed [0xF0, 0x0A, 0xF1, 0x0A] := by
    show ((new {}).load _).vm = _
    rw [load_of_fits (by decide)]
  have hw : vm.machine.Awaits 0 := by
    rw [hvm]
    exact ⟨_, word?_installed (new {}) 0xF0 0x0A [0xF1, 0x0A], by decide⟩
  have hl : vm.machine.keypad.latch = none := by
    rw [hvm]
    rfl
  have hw' : { vm.machine.setReg 0 7 with pc := vm.machine.pc + 2 }.Awaits 1 := by
    refine ⟨0xF10A, ?_, by decide⟩
    rw [hvm]
    simp [Machine.word?, installed, Machine.setReg, Machine.blank, Memory.getElem_store]
    decide
  clear_value vm
  have hpolls : ∀ op ∈ ([.cycle 0, .tick, .resume, .cycle 0] : List Operation),
      ¬ op.Installs ∧ op.pressed? = none := by simp [Operation.Installs, Operation.pressed?]
  obtain ⟨-, hu, hkeys⟩ := await_key_protocol hw hl hpolls
  obtain ⟨-, hs, -, hnext⟩ := hkeys [.keyDown 4, .suspend, .keyDown 7, .keyUp 7] 7 0
    (by simp [Operation.Installs, Operation.Executes]) rfl
  refine ⟨hu, ?_, ?_⟩
  · have hreg : o.vm.machine.regs[0] = (vm.machine.regs.set 0 7)[0] := by
      rw [hs.regs_eq]
      rfl
    exact hreg.trans (Vector.getElem_set_self _)
  · have hx : ¬ Operation.tick.Executes := not_false
    have hi : ¬ Operation.tick.Installs := not_false
    have hy := (perform_sameProgram hx hi o.vm).awaits (hs.awaits hw')
    exact (hnext [.tick] (by simp [Operation.pressed?]) 1 hy 0).1

end Vm

end ChipEight
