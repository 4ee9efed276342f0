import ChipEight.Checked
import ChipEight.Vm.Basic

/-!
# ChipEight.Vm.Act — work done on a machine in place

An instruction changes the machine one thing after the other, and may find only half-way that it
cannot go on.  An `Act` keeps what was changed until then: it ends with an answer or a failure, and
either way with the machine as it then stands.
-/

namespace ChipEight

/-- Work on a machine under control. -/
abbrev Act := EStateM Failure Vm

namespace Act

/-- The machine as it stands. -/
def machine : Act Machine := do return (← get).machine

/-- The machine is changed. -/
def change (f : Machine → Machine) : Act Unit := modify fun vm => { vm with machine := f vm.machine }

/-- The screen has to be shown again. -/
def askRedraw : Act Unit := modify fun vm => { vm with redraw := true }

/-- A playing machine falls asleep or wakes up. -/
def setAsleep (asleep : Bool) : Act Unit :=
  modify fun vm => { vm with state := vm.state.setAsleep asleep }

/-- The program is at fault. -/
def fault (f : Fault) : Act α := throw (.fault f)

/-- The answer of a component. -/
def ask (e : Except Breach α) : Act α :=
  match e with
  | .ok a => pure a
  | .error b => throw (.breach b)

/-- A byte of memory is written. -/
def writeByte (address : Nat) (b : UInt8) : Act Unit := do
  let memory ← ask ((← machine).memory.writeByte address b)
  change fun m => { m with memory }

/-- Bytes are written to memory, from `address` up. -/
def writeBlock (address : Nat) (bytes : List UInt8) : Act Unit := do
  let memory ← ask ((← machine).memory.writeBlock address bytes)
  change fun m => { m with memory }

/-- A return address is pushed. -/
def push (a : UInt16) : Act Unit := do
  let stack ← ask ((← machine).stack.push a)
  change fun m => { m with stack }

/-- The return address on top is popped. -/
def pop : Act UInt16 := do
  let (a, stack) ← ask (← machine).stack.pop
  change fun m => { m with stack }
  return a

/-- The latched key press is taken. -/
def takeLatch : Act (Option Key) := do
  let latch := (← machine).keypad.latch
  change fun m => { m with keypad := m.keypad.unlatch }
  return latch

/-- `I`, when the `length` bytes it points to lie within memory. -/
def window (length : Nat) : Act Nat := do
  let address := (← machine).index.toNat
  if Memory.Contains address length then return address
  else
    let past ← ask (Checked.add address length)
    fault (.outOfBounds (← ask (Checked.sub past 1)))

/-! ### What each act leads to -/

section Run

variable {vm : Vm}

@[simp] theorem run_map (f : α → β) (act : Act α) :
    (f <$> act).run vm = match act.run vm with
      | .ok a after => .ok (f a) after
      | .error e after => .error e after := by
  simp only [EStateM.run, Functor.map, EStateM.map]
  cases act vm <;> rfl

@[simp] theorem run_machine : machine.run vm = .ok vm.machine vm := rfl

@[simp] theorem run_change (f : Machine → Machine) :
    (change f).run vm = .ok () { vm with machine := f vm.machine } := rfl

@[simp] theorem run_askRedraw : askRedraw.run vm = .ok () { vm with redraw := true } := rfl

@[simp] theorem run_setAsleep (asleep : Bool) :
    (setAsleep asleep).run vm = .ok () { vm with state := vm.state.setAsleep asleep } := rfl

@[simp] theorem run_fault (f : Fault) : (fault f : Act α).run vm = .error (.fault f) vm := rfl

@[simp] theorem run_ask_ok (a : α) : (ask (.ok a)).run vm = .ok a vm := rfl

@[simp] theorem run_ask_error (b : Breach) :
    (ask (.error b) : Act α).run vm = .error (.breach b) vm := rfl

@[simp] theorem run_takeLatch :
    takeLatch.run vm = .ok vm.machine.keypad.latch
      { vm with machine := { vm.machine with keypad := vm.machine.keypad.unlatch } } := rfl

theorem run_writeByte {a : Nat} (h : a < Memory.size) (b : UInt8) :
    (writeByte a b).run vm =
      .ok () { vm with machine := { vm.machine with memory := vm.machine.memory.put a b } } := by
  simp [writeByte, Memory.writeByte_of_lt _ h]

theorem run_writeBlock {a : Nat} {bytes : List UInt8} (h : Memory.Contains a bytes.length) :
    (writeBlock a bytes).run vm =
      .ok () { vm with machine := { vm.machine with memory := vm.machine.memory.store a bytes } } := by
  simp [writeBlock, Memory.writeBlock_of_contains _ h]

theorem run_push {a : UInt16} {stack : CallStack} (h : vm.machine.stack.push a = .ok stack) :
    (push a).run vm = .ok () { vm with machine := { vm.machine with stack } } := by
  simp [push, h]

theorem run_pop {a : UInt16} {stack : CallStack} (h : vm.machine.stack.pop = .ok (a, stack)) :
    pop.run vm = .ok a { vm with machine := { vm.machine with stack } } := by
  simp [pop, h]

theorem run_window {length : Nat} (h : Memory.Contains vm.machine.index.toNat length) :
    (window length).run vm = .ok vm.machine.index.toNat vm := by
  simp [window, h]

/-- The last byte that is needed is told, which lies past the end of memory. -/
theorem run_window_past {length : Nat} (hl : length < UInt32.size)
    (h : ¬ Memory.Contains vm.machine.index.toNat length) :
    (window length).run vm =
      .error (.fault (.outOfBounds (vm.machine.index.toNat + length - 1))) vm := by
  have hi := vm.machine.index.toNat_lt
  have h1 : 1 ≤ vm.machine.index.toNat + length := by
    simp only [Memory.Contains, Memory.size] at h
    omega
  have h2 : vm.machine.index.toNat + length < UInt64.size := by
    simp only [UInt32.size, UInt64.size] at hl ⊢
    omega
  simp [window, h, Checked.add_of_lt h2, Checked.sub_of_le h1]

end Run

end Act

end ChipEight
