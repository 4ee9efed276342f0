import ChipEight.Vm.Exec

/-!
# ChipEight.Proofs.Execution — which instructions can be executed

An instruction that cannot be executed is recognised before it changes anything: `obstacle?` tells
the fault from the state alone.  Main statements: with an obstacle an instruction fails with that
fault and leaves the machine as it was (`run_exec_of_obstacle`), and without one it is executed
(`run_exec_of_clear`).  Behind them stand equations for the instructions that go through a checked
access, each under the condition that grants it.
-/

namespace ChipEight

/-- Number of bytes from `I` on that an instruction needs, if it needs `I` at all. -/
def Instr.span? : Instr → Option Nat
  | .draw _ _ n => some n
  | .single .storeDigits _ => some 3
  | .single .storeRegs x | .single .loadRegs x => some (x + 1)
  | _ => none

/-- The fault that keeps an instruction from being executed in the state `m`. -/
def Machine.obstacle? (m : Machine) (i : Instr) : Option Fault :=
  match i with
  | .ret => if m.stack.isEmpty then some .stackUnderflow else none
  | .addr .call _ => if m.stack.isFull then some .stackOverflow else none
  | i =>
    match i.span? with
    | some k =>
      if Memory.Contains m.index.toNat k then none
      else some (.outOfBounds (m.index.toNat + k - 1))
    | none => none

theorem Instr.span?_le {i : Instr} {k : Nat} (h : i.span? = some k) : k ≤ 16 := by
  unfold Instr.span? at h
  split at h <;> cases h <;> omega

namespace Act

variable {vm : Vm}

/-! ### Instructions with checked accesses -/

theorem run_call {a : Addr} {back : UInt16} {stack : CallStack}
    (hb : back.toNat = vm.machine.pc + 2) (hs : vm.machine.stack.push back = .ok stack) :
    (execAddr .call a).run vm =
      .ok { route := .to a, notice := .jump }
        { vm with machine := { vm.machine with stack } } := by
  have hf : vm.machine.stack.isFull = false := by
    cases hf : vm.machine.stack.isFull with
    | false => rfl
    | true =>
      rw [CallStack.push_eq_error_iff.mpr ⟨hf, rfl⟩] at hs
      cases hs
  have ha : vm.machine.pc + 2 < 2 ^ 64 := by
    have := back.toNat_lt
    omega
  simp [execAddr, hf, Checked.add_of_lt ha, ← hb, run_push hs]

theorem run_jumpOffset (a : Addr) :
    (execAddr .jumpOffset a).run vm =
      .ok { route := .to (a + (vm.machine.reg 0).toNat), notice := .jump } vm := by
  have h0 := (vm.machine.reg 0).toNat_lt
  have ha : a + (vm.machine.reg 0).toNat < 2 ^ 64 := by omega
  simp [execAddr, Checked.add_of_lt ha]

theorem run_ret {random : UInt8} {a : UInt16} {stack : CallStack}
    (hs : vm.machine.stack.pop = .ok (a, stack)) :
    (exec random .ret).run vm =
      .ok { route := .to a.toNat, notice := .jump }
        { vm with machine := { vm.machine with stack } } := by
  have he : vm.machine.stack.isEmpty = false := by
    cases he : vm.machine.stack.isEmpty with
    | false => rfl
    | true =>
      rw [CallStack.pop_eq_error_iff.mpr ⟨he, rfl⟩] at hs
      cases hs
  simp [exec, he, run_pop hs]

theorem run_execDraw {x y : Reg} {n : Nibble} (h : vm.machine.index.toNat + n ≤ Memory.size) :
    let drawn := vm.machine.screen.draw (vm.machine.reg x) (vm.machine.reg y)
      (vm.machine.memory.block vm.machine.index.toNat n h)
    (execDraw x y n).run vm =
      .ok { notice := .draw }
        { vm with
          machine := ({ vm.machine with screen := drawn.1 }).setFlag drawn.2
          redraw := true } := by
  simp [execDraw, run_window h, Memory.readBlock_of_le _ h]

theorem run_execAwaitKey_of_some {x : Reg} {k : Key} (h : vm.machine.keypad.latch = some k) :
    (execAwaitKey x).run vm =
      .ok {}
        { vm with
          machine := ({ vm.machine with keypad := vm.machine.keypad.unlatch }).setReg x
            (UInt8.ofNat k)
          state := vm.state.setAsleep false } := by
  simp [execAwaitKey, h]

theorem run_execAwaitKey_of_none {x : Reg} (h : vm.machine.keypad.latch = none) :
    (execAwaitKey x).run vm =
      .ok { route := .stay, notice := .keyWait } { vm with state := vm.state.setAsleep true } := by
  have hk : vm.machine.keypad.unlatch = vm.machine.keypad := by
    rw [Keypad.unlatch, ← h]
  simp [execAwaitKey, h, hk]

theorem run_execLoadGlyph {x : Reg} {index : UInt16}
    (hi : index.toNat = Font.start + (vm.machine.reg x).toNat * Font.height) :
    (execLoadGlyph x).run vm = .ok {} { vm with machine := { vm.machine with index } } := by
  have hlt := index.toNat_lt
  have hm : (vm.machine.reg x).toNat * Font.height < 2 ^ 64 := by omega
  have ha : Font.start + (vm.machine.reg x).toNat * Font.height < 2 ^ 64 := by omega
  simp only [execLoadGlyph, EStateM.run_bind, EStateM.run_pure, run_machine,
    Checked.mul_of_lt hm, Checked.add_of_lt ha, ← hi, Checked.address16_toNat, run_ask_ok,
    run_change]

theorem run_execStoreDigits {x : Reg} (h : vm.machine.index.toNat + 3 ≤ Memory.size) :
    (execStoreDigits x).run vm =
      .ok {}
        { vm with
          machine := { vm.machine with
            memory := ((vm.machine.memory.put vm.machine.index.toNat
                (vm.machine.reg x / 100 % 10)).put (vm.machine.index.toNat + 1)
                (vm.machine.reg x / 10 % 10)).put (vm.machine.index.toNat + 2)
                (vm.machine.reg x % 10) } } := by
  have h0 : vm.machine.index.toNat < Memory.size := by omega
  have h1 : vm.machine.index.toNat + 1 < Memory.size := by omega
  have h2 : vm.machine.index.toNat + 2 < Memory.size := by omega
  have hs : Memory.size < 2 ^ 64 := by decide
  simp [execStoreDigits, run_window h, Checked.add_of_lt (Nat.lt_trans h1 hs),
    Checked.add_of_lt (Nat.lt_trans h2 hs), run_writeByte h0, run_writeByte h1, run_writeByte h2]

theorem run_execStoreRegs {x : Reg} (h : vm.machine.index.toNat + (x + 1) ≤ Memory.size) :
    (execStoreRegs x).run vm =
      .ok {}
        { vm with
          machine := { vm.machine with
            memory := vm.machine.memory.store vm.machine.index.toNat
              (vm.machine.firstRegs (x + 1) x.isLt) } } := by
  have hc : x.val + 1 < 2 ^ 64 := by omega
  have hx : x.val + 1 ≤ 16 := x.isLt
  have hb : Memory.Contains vm.machine.index.toNat (vm.machine.firstRegs (x + 1) hx).length := by
    rw [Machine.length_firstRegs]
    exact h
  simp [execStoreRegs, Checked.add_of_lt hc, run_window h, Machine.readRegs_of_le _ hx,
    run_writeBlock hb]

theorem run_execLoadRegs {x : Reg} (h : vm.machine.index.toNat + (x + 1) ≤ Memory.size) :
    (execLoadRegs x).run vm =
      .ok {}
        { vm with
          machine := vm.machine.setRegs
            (vm.machine.memory.block vm.machine.index.toNat (x + 1) h) } := by
  have hc : x.val + 1 < 2 ^ 64 := by omega
  have hw : (vm.machine.memory.block vm.machine.index.toNat (x + 1) h).length ≤ 16 := by
    rw [Memory.length_block]
    exact x.isLt
  simp [execLoadRegs, Checked.add_of_lt hc, run_window h, Memory.readBlock_of_le _ h,
    Machine.writeRegs_of_le _ hw]

/-! ### With an obstacle -/

theorem run_exec_past {random : UInt8} {i : Instr} {k : Nat} (hk : i.span? = some k)
    (h : ¬ Memory.Contains vm.machine.index.toNat k) :
    (exec random i).run vm =
      .error (.fault (.outOfBounds (vm.machine.index.toNat + k - 1))) vm := by
  -- whatever the instruction, the window is its first check and nothing is written before it
  have hw := run_window_past (Nat.lt_of_le_of_lt (Instr.span?_le hk) (by decide)) h
  unfold Instr.span? at hk
  split at hk
  · next x y n =>
    cases hk
    simp [exec, execDraw, hw]
  · next x =>
    cases hk
    simp [exec, execSingle, execStoreDigits, hw]
  · next x =>
    cases hk
    have hc : x.val + 1 < 2 ^ 64 := by omega
    simp [exec, execSingle, execStoreRegs, Checked.add_of_lt hc, hw]
  · next x =>
    cases hk
    have hc : x.val + 1 < 2 ^ 64 := by omega
    simp [exec, execSingle, execLoadRegs, Checked.add_of_lt hc, hw]
  · cases hk

/-- An instruction that cannot be executed fails before it changes anything. -/
theorem run_exec_of_obstacle {i : Instr} {f : Fault} (h : vm.machine.obstacle? i = some f)
    (random : UInt8) : (exec random i).run vm = .error (.fault f) vm := by
  unfold Machine.obstacle? at h
  split at h
  · split at h
    · next he =>
      cases h
      simp [exec, he]
    · cases h
  · split at h
    · next hf =>
      cases h
      simp [exec, execAddr, hf]
    · cases h
  · split at h
    · next hk =>
      split at h
      · cases h
      · next hc =>
        cases h
        exact run_exec_past hk hc
    · cases h

theorem contains_of_clear {m : Machine} {i : Instr} {k : Nat} (h : m.obstacle? i = none)
    (hk : i.span? = some k) : m.index.toNat + k ≤ Memory.size := by
  unfold Machine.obstacle? at h
  split at h
  · cases hk
  · cases hk
  · rw [hk] at h
    dsimp only at h
    split at h
    · next hc => exact hc
    · cases h

/-! ### Without an obstacle -/

theorem exists_pop_of_clear {m : Machine} (h : m.obstacle? .ret = none) :
    ∃ a stack, m.stack.pop = .ok (a, stack) := by
  have he : m.stack.isEmpty = false := by
    cases he : m.stack.isEmpty with
    | false => rfl
    | true => simp [Machine.obstacle?, he] at h
  exact CallStack.exists_pop he

/-- The return address of a call that can be made fits a slot, and there is one free. -/
theorem exists_push_of_clear {m : Machine} {a : Addr} (hpc : m.pc ≤ 4094)
    (h : m.obstacle? (.addr .call a) = none) :
    ∃ back stack, back.toNat = m.pc + 2 ∧ m.stack.push back = .ok stack := by
  have hf : m.stack.isFull = false := by
    cases hf : m.stack.isFull with
    | false => rfl
    | true => simp [Machine.obstacle?, hf] at h
  have hlt : m.pc + 2 < 65536 := by omega
  obtain ⟨back, hb⟩ := Checked.exists_toNat_eq hlt
  obtain ⟨stack, hs⟩ := CallStack.exists_push hf back
  exact ⟨back, stack, hb, hs⟩

theorem exists_glyph (m : Machine) (x : Reg) :
    ∃ index : UInt16, index.toNat = Font.start + (m.reg x).toNat * Font.height := by
  have hx := (m.reg x).toNat_lt
  have hlt : Font.start + (m.reg x).toNat * Font.height < 65536 := by
    simp only [Font.start, Font.height]
    omega
  exact Checked.exists_toNat_eq hlt

end Act

/-- What an executed instruction does to the program counter and the return addresses. -/
structure Machine.Moves (m : Machine) (e : Effect) (after : Machine) : Prop where
  pc_eq : after.pc = m.pc
  /-- The program goes to an address operand, which `V0` may be added to, or to where a call came
  from. -/
  target : ∀ a, e.route = .to a → a ≤ 0x10FE ∨ ∃ r ∈ m.stack.toList, r.toNat = a
  /-- A return address is an old one or that of a call made now. -/
  returns : ∀ r ∈ after.stack.toList, r ∈ m.stack.toList ∨ r.toNat = m.pc + 2

namespace Machine.Moves

variable {m after : Machine} {e : Effect}

theorem of_ne_to (hp : after.pc = m.pc) (hs : after.stack = m.stack)
    (hr : ∀ a, e.route ≠ .to a) : m.Moves e after where
  pc_eq := hp
  target a h := absurd h (hr a)
  returns _ h := .inl (hs ▸ h)

theorem of_jump {a : Nat} (hp : after.pc = m.pc) (hs : after.stack = m.stack)
    (hr : e.route = .to a) (ha : a ≤ 0x10FE) : m.Moves e after where
  pc_eq := hp
  target b h := by
    rw [hr] at h
    cases h
    exact .inl ha
  returns _ h := .inl (hs ▸ h)

end Machine.Moves

theorem Route.skipIf_ne_to (c : Bool) (a : Nat) : Route.skipIf c ≠ .to a := by
  cases c <;> nofun

namespace Act

variable {vm : Vm}

theorem run_execAddr {op : AddrOp} {a : Addr} (hpc : vm.machine.pc ≤ 4094)
    (h : vm.machine.obstacle? (.addr op a) = none) :
    ∃ e after, (execAddr op a).run vm = .ok e after ∧ vm.machine.Moves e after.machine := by
  have ha := a.isLt
  cases op with
  | sys => exact ⟨_, _, rfl, .of_ne_to rfl rfl nofun⟩
  | jump => exact ⟨_, _, rfl, .of_jump rfl rfl rfl (by omega)⟩
  | loadIndex => exact ⟨_, _, rfl, .of_ne_to rfl rfl nofun⟩
  | jumpOffset =>
    have h0 := (vm.machine.reg 0).toNat_lt
    exact ⟨_, _, run_jumpOffset a, .of_jump rfl rfl rfl (by omega)⟩
  | call =>
    -- the only return address that is ever made
    obtain ⟨back, stack, hb, hs⟩ := exists_push_of_clear hpc h
    refine ⟨_, _, run_call hb hs, rfl, ?_, ?_⟩
    · rintro _ ⟨⟩
      exact .inl (by omega)
    · intro r hr
      rw [CallStack.toList_of_push hs, List.mem_append, List.mem_singleton] at hr
      rcases hr with hr | rfl
      · exact .inl hr
      · exact .inr hb

theorem run_execSingle {op : SingleOp} {x : Reg}
    (h : vm.machine.obstacle? (.single op x) = none) :
    ∃ e after, (execSingle op x).run vm = .ok e after ∧ vm.machine.Moves e after.machine := by
  cases op with
  | skipDown | skipUp => exact ⟨_, _, rfl, .of_ne_to rfl rfl (Route.skipIf_ne_to _)⟩
  | readDelay | setDelay | setSound | addIndex => exact ⟨_, _, rfl, .of_ne_to rfl rfl nofun⟩
  | awaitKey =>
    cases hl : vm.machine.keypad.latch with
    | some k => exact ⟨_, _, run_execAwaitKey_of_some hl, .of_ne_to rfl rfl nofun⟩
    | none => exact ⟨_, _, run_execAwaitKey_of_none hl, .of_ne_to rfl rfl nofun⟩
  | loadGlyph =>
    obtain ⟨index, hi⟩ := exists_glyph vm.machine x
    exact ⟨_, _, run_execLoadGlyph hi, .of_ne_to rfl rfl nofun⟩
  | storeDigits =>
    have hw := contains_of_clear (k := 3) h rfl
    exact ⟨_, _, run_execStoreDigits hw, .of_ne_to rfl rfl nofun⟩
  | storeRegs =>
    have hw := contains_of_clear (k := x + 1) h rfl
    exact ⟨_, _, run_execStoreRegs hw, .of_ne_to rfl rfl nofun⟩
  | loadRegs =>
    have hw := contains_of_clear (k := x + 1) h rfl
    exact ⟨_, _, run_execLoadRegs hw,
      .of_ne_to (Machine.pc_setRegs _ _) (Machine.stack_setRegs _ _) nofun⟩

/-- An instruction that nothing stands in the way of is executed. -/
theorem run_exec_of_clear {i : Instr} (hpc : vm.machine.pc ≤ 4094)
    (h : vm.machine.obstacle? i = none) (random : UInt8) :
    ∃ e after, (exec random i).run vm = .ok e after ∧ vm.machine.Moves e after.machine := by
  cases i with
  | clear => exact ⟨_, _, rfl, .of_ne_to rfl rfl nofun⟩
  | ret =>
    obtain ⟨a, stack, hs⟩ := exists_pop_of_clear h
    have hl := CallStack.toList_of_pop hs
    refine ⟨_, _, run_ret hs, rfl, ?_, ?_⟩
    · rintro _ ⟨⟩
      exact .inr ⟨a, by simp [hl], rfl⟩
    · intro r hr
      exact .inl (by rw [hl]; exact List.mem_append_left _ hr)
  | addr op a => exact run_execAddr hpc h
  | byte op x k =>
    cases op with
    | skipEq | skipNe => exact ⟨_, _, rfl, .of_ne_to rfl rfl (Route.skipIf_ne_to _)⟩
    | load | add | random => exact ⟨_, _, rfl, .of_ne_to rfl rfl nofun⟩
  | pair op x y =>
    cases op with
    | skipEq | skipNe => exact ⟨_, _, rfl, .of_ne_to rfl rfl (Route.skipIf_ne_to _)⟩
    | copy | or | and | xor | add | sub | shiftRight | subFrom | shiftLeft =>
      exact ⟨_, _, rfl, .of_ne_to rfl rfl nofun⟩
  | draw x y n =>
    have hw := contains_of_clear (k := n) h rfl
    exact ⟨_, _, run_execDraw hw, .of_ne_to rfl rfl nofun⟩
  | single op x => exact run_execSingle h

end Act

end ChipEight
