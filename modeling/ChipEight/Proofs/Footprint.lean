import ChipEight.Proofs.Cycle
import ChipEight.Proofs.Form

/-!
# ChipEight.Proofs.Footprint — what an executed instruction changes

A machine under control is cut into parts (`Part`), and a word touches some of them
(`Machine.Touches`).  The program counter is no part: it always moves, and `Machine.route` tells
where to.  Main statement: an instruction that nothing stands in the way of keeps every part that
its word does not touch, goes where `route` says and leaves the return addresses that
`returnsAfter` says (`run_exec_executed`).
-/

namespace ChipEight

/-! ### The parts of a machine -/

/-- A part of a machine under control that can be looked at by itself. -/
inductive Part where
  | reg (r : Reg)
  | index
  | delay
  | sound
  | byte (a : Fin 4096)
  | stack
  | pixel (c : Fin 2048)
  | redraw
  | held (k : Key)
  | latch
  | runState
  | config

/-- Both have the same there. -/
def Part.Same (vm after : Vm) : Part → Prop
  | .reg r => after.machine.reg r = vm.machine.reg r
  | .index => after.machine.index = vm.machine.index
  | .delay => after.machine.delay = vm.machine.delay
  | .sound => after.machine.sound = vm.machine.sound
  | .byte a => after.machine.memory[a.val] = vm.machine.memory[a.val]
  | .stack => after.machine.stack = vm.machine.stack
  | .pixel c => after.machine.screen.isLit c = vm.machine.screen.isLit c
  | .redraw => after.redraw = vm.redraw
  | .held k => after.machine.keypad.isDown k = vm.machine.keypad.isDown k
  | .latch => after.machine.keypad.latch = vm.machine.keypad.latch
  | .runState => after.state = vm.state
  | .config => after.config = vm.config

/-- Nothing is left out: the parts and the program counter make up all of a machine. -/
theorem Part.eq_of_same {vm after : Vm} (hpc : after.machine.pc = vm.machine.pc)
    (h : ∀ p : Part, p.Same vm after) : after = vm := by
  have hregs : after.machine.regs = vm.machine.regs :=
    Vector.ext fun r hr => h (.reg ⟨r, hr⟩)
  have hmemory : after.machine.memory = vm.machine.memory :=
    Memory.ext fun a ha => h (.byte ⟨a, ha⟩)
  have hscreen : after.machine.screen = vm.machine.screen :=
    Screen.ext fun c => h (.pixel c)
  have hheld : after.machine.keypad.held = vm.machine.keypad.held :=
    Keypad.held_ext fun k => h (.held k)
  have hindex := h .index
  have hdelay := h .delay
  have hsound := h .sound
  have hstack := h .stack
  have hlatch := h .latch
  have hredraw := h .redraw
  have hstate := h .runState
  have hconfig := h .config
  obtain ⟨⟨pc, regs, index, delay, sound, memory, stack, screen, held, latch⟩, state, redraw,
    config⟩ := vm
  obtain ⟨⟨pc', regs', index', delay', sound', memory', stack', screen', held', latch'⟩, state',
    redraw', config'⟩ := after
  dsimp only [Part.Same] at *
  subst hpc hregs hindex hdelay hsound hmemory hstack hscreen hheld hlatch hstate hredraw hconfig
  rfl

/-- Outside of the parts in `T` both have the same. -/
def Vm.Keeps (T : Part → Prop) (vm after : Vm) : Prop := ∀ p, ¬ T p → p.Same vm after

/-- The word fits one of the written forms. -/
def Word.FitsOne (w : UInt16) (forms : List String) : Prop := ∃ form ∈ forms, Word.Fits w form

/-- The parts that a word touches when it is executed. -/
inductive Machine.Touches (m : Machine) (w : UInt16) : Part → Prop
  | operand {r : Reg} (hr : Word.x w = r)
      (h : Word.FitsOne w ["6xkk", "7xkk", "8xy0", "8xy1", "8xy2", "8xy3", "8xy4", "8xy5", "8xy6",
        "8xy7", "8xyE", "Cxkk", "Fx07"]) : m.Touches w (.reg r)
  /-- A wait for a key that comes to its end. -/
  | key {r : Reg} (hr : Word.x w = r) (h : Word.Fits w "Fx0A") (hl : m.keypad.latch ≠ none) :
      m.Touches w (.reg r)
  | loaded {r : Reg} (hr : r ≤ Word.x w) (h : Word.Fits w "Fx65") : m.Touches w (.reg r)
  | flag (h : Word.FitsOne w ["8xy4", "8xy5", "8xy6", "8xy7", "8xyE", "Dxyn"]) :
      m.Touches w (.reg Reg.flag)
  | index (h : Word.FitsOne w ["Annn", "Fx1E", "Fx29"]) : m.Touches w .index
  | delay (h : Word.Fits w "Fx15") : m.Touches w .delay
  | sound (h : Word.Fits w "Fx18") : m.Touches w .sound
  | digits {a : Fin 4096} (hl : m.index.toNat ≤ a) (hu : a ≤ m.index.toNat + 2)
      (h : Word.Fits w "Fx33") : m.Touches w (.byte a)
  | stored {a : Fin 4096} (hl : m.index.toNat ≤ a) (hu : a ≤ m.index.toNat + Word.x w)
      (h : Word.Fits w "Fx55") : m.Touches w (.byte a)
  | stack (h : Word.FitsOne w ["2nnn", "00EE"]) : m.Touches w .stack
  | pixel {c : Fin 2048} (h : Word.FitsOne w ["00E0", "Dxyn"]) : m.Touches w (.pixel c)
  | redraw (h : Word.FitsOne w ["00E0", "Dxyn"]) : m.Touches w .redraw
  | latch (h : Word.Fits w "Fx0A") : m.Touches w .latch
  | runState (h : Word.Fits w "Fx0A") : m.Touches w .runState

theorem Instr.fitsOne_encode {i : Instr} {forms : List String} (h : i.form ∈ forms) :
    Word.FitsOne i.encode forms := ⟨i.form, h, fits_encode i⟩

namespace Vm.Keeps

variable {T : Part → Prop} {vm middle after : Vm}

theorem refl : Keeps T vm vm := by
  intro p _
  cases p <;> rfl

theorem trans (h : Keeps T vm middle) (h' : Keeps T middle after) : Keeps T vm after := by
  intro p hp
  have h1 := h p hp
  have h2 := h' p hp
  cases p <;> exact h2.trans h1

/-! ### One change -/

theorem one (p : Part) (h : T p) (hs : ∀ q, q ≠ p → q.Same vm after) : Keeps T vm after := by
  intro q hq
  refine hs q ?_
  rintro rfl
  exact hq h

theorem index (h : T .index) (v : UInt16) :
    Keeps T vm { vm with machine := { vm.machine with index := v } } :=
  one .index h fun q hq => by cases q <;> trivial

theorem delay (h : T .delay) (v : UInt8) :
    Keeps T vm { vm with machine := { vm.machine with delay := v } } :=
  one .delay h fun q hq => by cases q <;> trivial

theorem sound (h : T .sound) (v : UInt8) :
    Keeps T vm { vm with machine := { vm.machine with sound := v } } :=
  one .sound h fun q hq => by cases q <;> trivial

theorem stack (h : T .stack) (s : CallStack) :
    Keeps T vm { vm with machine := { vm.machine with stack := s } } :=
  one .stack h fun q hq => by cases q <;> trivial

theorem redraw (h : T .redraw) (b : Bool) : Keeps T vm { vm with redraw := b } :=
  one .redraw h fun q hq => by cases q <;> trivial

theorem unlatch (h : T .latch) :
    Keeps T vm { vm with machine := { vm.machine with keypad := vm.machine.keypad.unlatch } } :=
  one .latch h fun q hq => by cases q <;> trivial

theorem runState (h : T .runState) (s : RunState) : Keeps T vm { vm with state := s } :=
  one .runState h fun q hq => by cases q <;> trivial

theorem screen (h : ∀ c, T (.pixel c)) (s : Screen) :
    Keeps T vm { vm with machine := { vm.machine with screen := s } } := by
  intro p hp
  cases p with
  | pixel c => exact absurd (h c) hp
  | _ => rfl

theorem setReg {x : Reg} (h : T (.reg x)) (v : UInt8) :
    Keeps T vm { vm with machine := vm.machine.setReg x v } := by
  intro p hp
  cases p with
  | reg r =>
    have hr : x ≠ r := by
      rintro rfl
      exact hp h
    show (vm.machine.setReg x v).reg r = _
    rw [Machine.reg_setReg, if_neg hr]
  | _ => rfl

theorem setRegs {values : List UInt8} (h : ∀ r : Reg, r.val < values.length → T (.reg r)) :
    Keeps T vm { vm with machine := vm.machine.setRegs values } := by
  intro p hp
  cases p with
  | reg r =>
    have hr : values.length ≤ r.val := Nat.le_of_not_lt fun hlt => hp (h r hlt)
    show (vm.machine.setRegs values).reg r = _
    rw [Machine.reg_setRegs, List.getD_eq_getElem?_getD, List.getElem?_eq_none hr,
      Option.getD_none]
  | _ => simp only [Part.Same, Machine.setRegs]

theorem store {address : Nat} (bytes : List UInt8)
    (h : ∀ a : Fin 4096, address ≤ a → a < address + bytes.length → T (.byte a)) :
    Keeps T vm
      { vm with machine := { vm.machine with memory := vm.machine.memory.store address bytes } } := by
  intro p hp
  cases p with
  | byte a =>
    have ha : ¬ (address ≤ a ∧ a - address < bytes.length) := by
      rintro ⟨h1, h2⟩
      exact hp (h a h1 (by omega))
    show (vm.machine.memory.store address bytes)[a.val] = _
    rw [Memory.getElem_store, dif_neg ha]
  | _ => rfl

end Vm.Keeps

/-! ### Where an instruction leads -/

namespace Machine

/-- The return addresses in use, bottom first. -/
def returns (m : Machine) : List Nat := m.stack.toList.map UInt16.toNat

/-- The instruction is a skip whose condition holds. -/
def skips (m : Machine) : Instr → Bool
  | .byte .skipEq x k => m.reg x == k
  | .byte .skipNe x k => m.reg x != k
  | .pair .skipEq x y => m.reg x == m.reg y
  | .pair .skipNe x y => m.reg x != m.reg y
  | .single .skipDown x => m.keyDown (m.reg x)
  | .single .skipUp x => !m.keyDown (m.reg x)
  | _ => false

/-- Where the program goes from an instruction. -/
def route (m : Machine) : Instr → Route
  | .ret => .to (m.returns.getLastD 0)
  | .addr .jump a | .addr .call a => .to a
  | .addr .jumpOffset a => .to (a + (m.reg 0).toNat)
  | .single .awaitKey _ => if m.keypad.latch = none then .stay else .next
  | i => .skipIf (m.skips i)

/-- The return addresses in use after an instruction. -/
def returnsAfter (m : Machine) : Instr → List Nat
  | .ret => m.returns.dropLast
  | .addr .call _ => m.returns ++ [m.pc + 2]
  | _ => m.returns

end Machine

/-- What comes of executing an instruction, the move of the program counter left out. -/
structure Vm.Executed (vm : Vm) (i : Instr) (e : Effect) (after : Vm) : Prop where
  keeps : vm.Keeps (vm.machine.Touches i.encode) after
  pc_eq : after.machine.pc = vm.machine.pc
  route_eq : e.route = vm.machine.route i
  returns_eq : after.machine.returns = vm.machine.returnsAfter i
  playing_eq : after.state.isPlaying = vm.state.isPlaying

namespace Act

open Instr (fitsOne_encode fits_encode)

variable {vm : Vm}

/-! ### The instructions by their operands -/

theorem run_execAddr_executed {op : AddrOp} {a : Addr} (hpc : vm.machine.pc ≤ 4094)
    (h : vm.machine.obstacle? (.addr op a) = none) :
    ∃ e after, (execAddr op a).run vm = .ok e after ∧ vm.Executed (.addr op a) e after := by
  cases op with
  | sys | jump => exact ⟨_, _, rfl, .refl, rfl, rfl, rfl, rfl⟩
  | jumpOffset => exact ⟨_, _, run_jumpOffset a, .refl, rfl, rfl, rfl, rfl⟩
  | loadIndex =>
    have ht : vm.machine.Touches (Instr.addr .loadIndex a).encode .index :=
      .index (fitsOne_encode (by rw [Instr.form]; decide))
    exact ⟨_, _, rfl, .index ht _, rfl, rfl, rfl, rfl⟩
  | call =>
    obtain ⟨back, stack, hb, hs⟩ := exists_push_of_clear hpc h
    have ht : vm.machine.Touches (Instr.addr .call a).encode .stack :=
      .stack (fitsOne_encode (by rw [Instr.form]; decide))
    refine ⟨_, _, run_call hb hs, .stack ht stack, rfl, rfl, ?_, rfl⟩
    show stack.toList.map UInt16.toNat = _
    rw [CallStack.toList_of_push hs, List.map_append, List.map_singleton, hb]
    rfl

theorem run_execByte_executed (random : UInt8) (op : ByteOp) (x : Reg) (k : UInt8) :
    ∃ e after, (execByte random op x k).run vm = .ok e after ∧
      vm.Executed (.byte op x k) e after := by
  cases op with
  | skipEq | skipNe => exact ⟨_, _, rfl, .refl, rfl, rfl, rfl, rfl⟩
  | load | add | random =>
    refine ⟨_, _, rfl, .setReg (x := x) ?_ _, rfl, rfl, rfl, rfl⟩
    exact .operand (Word.x_ofByte _ x k) (fitsOne_encode (by rw [Instr.form]; decide))

theorem run_execPair_executed (op : PairOp) (x y : Reg) :
    ∃ e after, (execPair op x y).run vm = .ok e after ∧ vm.Executed (.pair op x y) e after := by
  cases op with
  | skipEq | skipNe => exact ⟨_, _, rfl, .refl, rfl, rfl, rfl, rfl⟩
  | copy | or | and | xor =>
    refine ⟨_, _, rfl, .setReg (x := x) ?_ _, rfl, rfl, rfl, rfl⟩
    exact .operand (Word.x_ofNibbles _ x y _) (fitsOne_encode (by rw [Instr.form]; decide))
  | add | sub | shiftRight | subFrom | shiftLeft =>
    refine ⟨_, _, rfl, Vm.Keeps.trans (.setReg (x := x) ?_ _) (.setReg (x := Reg.flag) ?_ _), rfl,
      rfl, rfl, rfl⟩
    · exact .operand (Word.x_ofNibbles _ x y _) (fitsOne_encode (by rw [Instr.form]; decide))
    · exact .flag (fitsOne_encode (by rw [Instr.form]; decide))

theorem run_execDraw_executed {x y : Reg} {n : Nibble}
    (h : vm.machine.obstacle? (.draw x y n) = none) :
    ∃ e after, (execDraw x y n).run vm = .ok e after ∧ vm.Executed (.draw x y n) e after := by
  have hw := contains_of_clear (k := n) h rfl
  have hp : ∀ c, vm.machine.Touches (Instr.draw x y n).encode (.pixel c) :=
    fun c => .pixel (fitsOne_encode (by rw [Instr.form]; decide))
  have hf : vm.machine.Touches (Instr.draw x y n).encode (.reg Reg.flag) :=
    .flag (fitsOne_encode (by rw [Instr.form]; decide))
  have hr : vm.machine.Touches (Instr.draw x y n).encode .redraw :=
    .redraw (fitsOne_encode (by rw [Instr.form]; decide))
  exact ⟨_, _, run_execDraw hw, Vm.Keeps.trans (.screen hp _) (.trans (.setReg hf _) (.redraw hr true)),
    rfl, rfl, rfl, rfl⟩

theorem run_execAwaitKey_executed (x : Reg) :
    ∃ e after, (execAwaitKey x).run vm = .ok e after ∧
      vm.Executed (.single .awaitKey x) e after := by
  have hfit := fits_encode (.single .awaitKey x)
  have hs : ∀ b, (vm.state.setAsleep b).isPlaying = vm.state.isPlaying := by
    intro b
    cases vm.state <;> rfl
  cases hl : vm.machine.keypad.latch with
  | some k =>
    have hne : vm.machine.keypad.latch ≠ none := by
      rw [hl]
      nofun
    have ht : vm.machine.Touches _ (.reg x) := .key (Word.x_ofByte _ x _) hfit hne
    refine ⟨_, _, run_execAwaitKey_of_some hl,
      Vm.Keeps.trans (.unlatch (.latch hfit)) (.trans (.setReg ht _) (.runState (.runState hfit) _)),
      rfl, ?_, rfl, hs false⟩
    exact (if_neg hne).symm
  | none =>
    refine ⟨_, _, run_execAwaitKey_of_none hl, .runState (.runState hfit) _, rfl, ?_, rfl, hs true⟩
    exact (if_pos hl).symm

theorem run_execSingle_executed {op : SingleOp} {x : Reg}
    (h : vm.machine.obstacle? (.single op x) = none) :
    ∃ e after, (execSingle op x).run vm = .ok e after ∧ vm.Executed (.single op x) e after := by
  cases op with
  | skipDown | skipUp => exact ⟨_, _, rfl, .refl, rfl, rfl, rfl, rfl⟩
  | readDelay =>
    refine ⟨_, _, rfl, .setReg (x := x) ?_ _, rfl, rfl, rfl, rfl⟩
    exact .operand (Word.x_ofByte _ x _) (fitsOne_encode (by rw [Instr.form]; decide))
  | setDelay =>
    have ht := Machine.Touches.delay (m := vm.machine) (fits_encode (.single .setDelay x))
    exact ⟨_, _, rfl, .delay ht _, rfl, rfl, rfl, rfl⟩
  | setSound =>
    have ht := Machine.Touches.sound (m := vm.machine) (fits_encode (.single .setSound x))
    exact ⟨_, _, rfl, .sound ht _, rfl, rfl, rfl, rfl⟩
  | addIndex =>
    have ht : vm.machine.Touches (Instr.single .addIndex x).encode .index :=
      .index (fitsOne_encode (by rw [Instr.form]; decide))
    exact ⟨_, _, rfl, .index ht _, rfl, rfl, rfl, rfl⟩
  | awaitKey => exact run_execAwaitKey_executed x
  | loadGlyph =>
    have ht : vm.machine.Touches (Instr.single .loadGlyph x).encode .index :=
      .index (fitsOne_encode (by rw [Instr.form]; decide))
    obtain ⟨index, hi⟩ := exists_glyph vm.machine x
    exact ⟨_, _, run_execLoadGlyph hi, .index ht index, rfl, rfl, rfl, rfl⟩
  | storeDigits =>
    have hw := contains_of_clear (k := 3) h rfl
    refine ⟨_, _, run_execStoreDigits hw, .store [_, _, _] ?_, rfl, rfl, rfl, rfl⟩
    intro a hl hu
    exact .digits hl (Nat.le_of_lt_succ hu) (fits_encode (.single .storeDigits x))
  | storeRegs =>
    have hw := contains_of_clear (k := x + 1) h rfl
    refine ⟨_, _, run_execStoreRegs hw, .store _ ?_, rfl, rfl, rfl, rfl⟩
    intro a hl hu
    have hx : Word.x (Instr.single .storeRegs x).encode = x := Word.x_ofByte _ x _
    rw [Machine.length_firstRegs] at hu
    refine .stored hl ?_ (fits_encode (.single .storeRegs x))
    rw [hx]
    omega
  | loadRegs =>
    have hw := contains_of_clear (k := x + 1) h rfl
    refine ⟨_, _, run_execLoadRegs hw, .setRegs ?_, Machine.pc_setRegs _ _, rfl, ?_, rfl⟩
    · intro r hr
      have hx : Word.x (Instr.single .loadRegs x).encode = x := Word.x_ofByte _ x _
      rw [Memory.length_block] at hr
      refine .loaded ?_ (fits_encode (.single .loadRegs x))
      rw [hx]
      exact Nat.le_of_lt_succ hr
    · show (vm.machine.setRegs _).stack.toList.map _ = _
      rw [Machine.stack_setRegs]
      rfl

/-- An instruction that nothing stands in the way of keeps what its word does not touch, and leads
where it says. -/
theorem run_exec_executed {i : Instr} (hpc : vm.machine.pc ≤ 4094)
    (h : vm.machine.obstacle? i = none) (random : UInt8) :
    ∃ e after, (exec random i).run vm = .ok e after ∧ vm.Executed i e after := by
  cases i with
  | clear =>
    have hp : ∀ c, vm.machine.Touches Instr.clear.encode (.pixel c) :=
      fun c => .pixel (fitsOne_encode (by decide))
    have hr : vm.machine.Touches Instr.clear.encode .redraw := .redraw (fitsOne_encode (by decide))
    exact ⟨_, _, rfl, Vm.Keeps.trans (.screen hp _) (.redraw hr true), rfl, rfl, rfl, rfl⟩
  | ret =>
    obtain ⟨a, stack, hs⟩ := exists_pop_of_clear h
    have hv : vm.machine.returns = stack.toList.map UInt16.toNat ++ [a.toNat] := by
      rw [Machine.returns, CallStack.toList_of_pop hs, List.map_append, List.map_singleton]
    have ht : vm.machine.Touches Instr.ret.encode .stack := .stack (fitsOne_encode (by decide))
    refine ⟨_, _, run_ret hs, .stack ht stack, rfl, ?_, ?_, rfl⟩
    · rw [Machine.route, hv, List.getLastD_concat]
    · rw [Machine.returnsAfter, hv, List.dropLast_concat]
      rfl
  | addr op a => exact run_execAddr_executed hpc h
  | byte op x k => exact run_execByte_executed random op x k
  | pair op x y => exact run_execPair_executed op x y
  | draw x y n => exact run_execDraw_executed h
  | single op x => exact run_execSingle_executed h

end Act

/-- A cycle that meets no fault executes the instruction at the program counter. -/
theorem Vm.cycle_executed {vm : Vm} (h : vm.machine.fault? = none) (random : UInt8) :
    ∃ w i e after target, vm.machine.word? = some w ∧ Instr.decode? w = some i ∧
      vm.machine.obstacle? i = none ∧ (Act.exec random i).run vm = .ok e after ∧
      vm.Executed i e after ∧ (vm.machine.route i).target vm.machine.pc = .ok target ∧
      vm.cycle random =
        ⟨{ after with machine := { after.machine with pc := target } }, .ok e.notice, [],
          [.executing vm.machine.pc i]⟩ := by
  obtain ⟨w, i, hw, hd, ho⟩ := Machine.exists_of_fault?_eq_none h
  have hpc := Machine.pc_le_of_word? hw
  obtain ⟨e, after, hrun, hx⟩ := Act.run_exec_executed hpc ho random
  obtain ⟨target, ht⟩ := Route.exists_target hpc e.route
  have hc := cycle_of_run_exec (Machine.next_of_decode? hw hd) hrun ht
  rw [hx.route_eq] at ht
  exact ⟨w, i, e, after, target, hw, hd, ho, hrun, hx, ht, hc⟩

end ChipEight
