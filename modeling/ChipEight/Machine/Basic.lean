import ChipEight.CallStack
import ChipEight.Font
import ChipEight.Instr.Basic
import ChipEight.Keypad
import ChipEight.Screen

/-!
# ChipEight.Machine.Basic — the state that programs see

Program counter, registers, index register `I`, the two timers, memory, call stack, screen and
keypad.
-/

namespace ChipEight

/-- The state of the machine. -/
structure Machine where
  /-- Where the next instruction is fetched from. -/
  pc : Nat
  /-- `V0` to `VF`. -/
  regs : Vector UInt8 16
  /-- The index register `I`. -/
  index : UInt16
  /-- The delay timer. -/
  delay : UInt8
  /-- The sound timer. -/
  sound : UInt8
  memory : Memory
  stack : CallStack
  screen : Screen
  keypad : Keypad
  deriving DecidableEq

namespace Machine

/-- Where programs are loaded and started. -/
abbrev programStart : Nat := 512

/-- The most bytes a program may have; the last byte of memory stays free. -/
abbrev programLimit : Nat := 3583

/-- Everything zero, off and empty, ready to start a program. -/
def blank : Machine where
  pc := programStart
  regs := Vector.replicate 16 0
  index := 0
  delay := 0
  sound := 0
  memory := Memory.blank
  stack := CallStack.empty
  screen := Screen.blank
  keypad := Keypad.idle

/-- The value of a register. -/
def reg (m : Machine) (x : Reg) : UInt8 := m.regs[x]

/-- A register gets a value. -/
def setReg (m : Machine) (x : Reg) (v : UInt8) : Machine := { m with regs := m.regs.set x v }

/-- The flag register becomes one or zero. -/
def setFlag (m : Machine) (b : Bool) : Machine := m.setReg Reg.flag (if b then 1 else 0)

/-- The first registers get the given values. -/
def setRegs (m : Machine) (values : List UInt8) : Machine :=
  { m with regs := Vector.ofFn fun i => values.getD i m.regs[i] }

/-- The values of the first `count` registers, of which there are that many. -/
def firstRegs (m : Machine) (count : Nat) (h : count ≤ 16) : List UInt8 :=
  List.ofFn fun i : Fin count => m.regs[i]

/-- The values of the first `count` registers. -/
def readRegs (m : Machine) (count : Nat) : Except Breach (List UInt8) :=
  if h : count ≤ 16 then .ok (m.firstRegs count h) else .error (.registerRange count)

/-- The first registers become the given values, if there are that many. -/
def writeRegs (m : Machine) (values : List UInt8) : Except Breach Machine :=
  if values.length ≤ 16 then .ok (m.setRegs values) else .error (.registerRange values.length)

/-- The key named by a register value is held; values past the keypad name none. -/
def keyDown (m : Machine) (v : UInt8) : Bool :=
  match Key.ofNat? v.toNat with
  | some k => m.keypad.isDown k
  | none => false

/-- The timers one tick later. -/
def tick (m : Machine) : Machine :=
  { m with
    delay := if m.delay = 0 then 0 else m.delay - 1
    sound := if m.sound = 0 then 0 else m.sound - 1 }

/-! ### Registers -/

@[simp] theorem pc_setReg (m : Machine) (x : Reg) (v : UInt8) : (m.setReg x v).pc = m.pc := rfl

@[simp] theorem pc_setFlag (m : Machine) (b : Bool) : (m.setFlag b).pc = m.pc := rfl

@[simp] theorem pc_setRegs (m : Machine) (values : List UInt8) :
    (m.setRegs values).pc = m.pc := by
  simp only [setRegs]

@[simp] theorem stack_setReg (m : Machine) (x : Reg) (v : UInt8) :
    (m.setReg x v).stack = m.stack := rfl

@[simp] theorem stack_setFlag (m : Machine) (b : Bool) : (m.setFlag b).stack = m.stack := rfl

@[simp] theorem stack_setRegs (m : Machine) (values : List UInt8) :
    (m.setRegs values).stack = m.stack := by
  simp only [setRegs]

theorem reg_setReg (m : Machine) (x y : Reg) (v : UInt8) :
    (m.setReg x v).reg y = if x = y then v else m.reg y := by
  by_cases h : x = y
  · subst h
    simp [reg, setReg]
  · have h' : x.val ≠ y.val := fun e => h (Fin.ext e)
    simp [reg, setReg, h, h']

theorem reg_setFlag (m : Machine) (b : Bool) (y : Reg) :
    (m.setFlag b).reg y = if Reg.flag = y then (if b then 1 else 0) else m.reg y :=
  reg_setReg m Reg.flag y _

theorem reg_setRegs (m : Machine) (values : List UInt8) (y : Reg) :
    (m.setRegs values).reg y = values.getD y (m.reg y) := by
  simp [reg, setRegs]

@[simp] theorem length_firstRegs (m : Machine) {count : Nat} (h : count ≤ 16) :
    (m.firstRegs count h).length = count := List.length_ofFn

theorem firstRegs_eq_take (m : Machine) {count : Nat} (h : count ≤ 16) :
    m.firstRegs count h = (List.ofFn m.reg).take count := by
  refine List.ext_getElem ?_ fun k hk hk' => ?_
  · rw [length_firstRegs, List.length_take, List.length_ofFn, Nat.min_eq_left h]
  · rw [List.getElem_take, List.getElem_ofFn]
    exact List.getElem_ofFn hk

theorem readRegs_of_le (m : Machine) {count : Nat} (h : count ≤ 16) :
    m.readRegs count = .ok (m.firstRegs count h) := dif_pos h

theorem writeRegs_of_le (m : Machine) {values : List UInt8} (h : values.length ≤ 16) :
    m.writeRegs values = .ok (m.setRegs values) := if_pos h

end Machine

end ChipEight
