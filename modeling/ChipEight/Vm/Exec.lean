import ChipEight.Machine.Fetch
import ChipEight.Vm.Act

/-!
# ChipEight.Vm.Exec — executing one instruction

`exec` applies the effect of an instruction and tells where the program counter goes, and `execute`
moves it there.  The only instruction that looks at the random byte is the one that loads it.
-/

namespace ChipEight

/-- Where the program counter goes. -/
inductive Route where
  /-- To the following instruction. -/
  | next
  /-- Over the following instruction. -/
  | skip
  /-- Elsewhere, possibly past the end of memory. -/
  | to (address : Nat)
  /-- Nowhere. -/
  | stay
  deriving DecidableEq, Repr

namespace Route

/-- Over the next instruction if the condition holds. -/
def skipIf (c : Bool) : Route := if c then .skip else .next

/-- The program counter after an instruction at `pc`. -/
def target (pc : Nat) : Route → Except Breach Nat
  | .next => Checked.add pc 2
  | .skip => Checked.add pc 4
  | .to a => .ok a
  | .stay => .ok pc

end Route

/-- What the host is told about an executed instruction. -/
inductive Notice where
  | ok
  /-- The program went elsewhere. -/
  | jump
  /-- The screen was changed. -/
  | draw
  /-- The sound timer was set. -/
  | sound
  /-- The program waits for a key. -/
  | keyWait
  deriving DecidableEq, Repr

/-- What an instruction answers. -/
structure Effect where
  route : Route := .next
  notice : Notice := .ok
  deriving DecidableEq, Repr

namespace Act

/-- The effect of an operation on an address. -/
def execAddr (op : AddrOp) (a : Addr) : Act Effect := do
  let m ← machine
  match op with
  | .sys => return {}
  | .jump => return { route := .to a, notice := .jump }
  | .call =>
    if m.stack.isFull then fault .stackOverflow
    else
      let back ← ask (Checked.add m.pc 2)
      push (← ask (Checked.address16 back))
      return { route := .to a, notice := .jump }
  | .loadIndex =>
    change fun m => { m with index := UInt16.ofNat a }
    return {}
  | .jumpOffset =>
    let target ← ask (Checked.add a (m.reg 0).toNat)
    return { route := .to target, notice := .jump }

/-- The effect of an operation on a register and a byte. -/
def execByte (random : UInt8) (op : ByteOp) (x : Reg) (k : UInt8) : Act Effect := do
  let a := (← machine).reg x
  match op with
  | .skipEq => return { route := .skipIf (a == k) }
  | .skipNe => return { route := .skipIf (a != k) }
  | .load =>
    change (·.setReg x k)
    return {}
  | .add =>
    change (·.setReg x (a + k))
    return {}
  | .random =>
    change (·.setReg x (random &&& k))
    return {}

/-- A register gets a result, and then the flag register the flag. -/
def setWithFlag (x : Reg) (result : UInt8) (flag : Bool) : Act Effect := do
  change (·.setReg x result)
  change (·.setFlag flag)
  return {}

/-- The effect of an operation on two registers.  The flag is written after the result. -/
def execPair (op : PairOp) (x y : Reg) : Act Effect := do
  let a := (← machine).reg x
  let b := (← machine).reg y
  match op with
  | .skipEq => return { route := .skipIf (a == b) }
  | .skipNe => return { route := .skipIf (a != b) }
  | .copy =>
    change (·.setReg x b)
    return {}
  | .or =>
    change (·.setReg x (a ||| b))
    return {}
  | .and =>
    change (·.setReg x (a &&& b))
    return {}
  | .xor =>
    change (·.setReg x (a ^^^ b))
    return {}
  | .add => setWithFlag x (a + b) (decide (256 ≤ a.toNat + b.toNat))
  | .sub => setWithFlag x (a - b) (decide (b ≤ a))
  | .shiftRight => setWithFlag x (a / 2) (decide (a % 2 = 1))
  | .subFrom => setWithFlag x (b - a) (decide (a ≤ b))
  | .shiftLeft => setWithFlag x (a + a) (decide (128 ≤ a))

/-- The effect of drawing the `n` rows at `I`.  The flag tells whether a lit pixel went dark. -/
def execDraw (x y : Reg) (n : Nibble) : Act Effect := do
  let a ← window n
  let m ← machine
  let rows ← ask (m.memory.readBlock a n)
  let (screen, collision) := m.screen.draw (m.reg x) (m.reg y) rows
  change fun m => { m with screen }
  change (·.setFlag collision)
  askRedraw
  return { notice := .draw }

/-- The effect of waiting for a key: the latched press is taken, and without one nothing moves. -/
def execAwaitKey (x : Reg) : Act Effect := do
  match ← takeLatch with
  | some k =>
    change (·.setReg x (UInt8.ofNat k))
    setAsleep false
    return {}
  | none =>
    setAsleep true
    return { route := .stay, notice := .keyWait }

/-- The effect of pointing `I` at the glyph of a digit. -/
def execLoadGlyph (x : Reg) : Act Effect := do
  let offset ← ask (Checked.mul ((← machine).reg x).toNat Font.height)
  let address ← ask (Checked.add Font.start offset)
  let index ← ask (Checked.address16 address)
  change fun m => { m with index }
  return {}

/-- The effect of storing the decimal digits of a register at `I`. -/
def execStoreDigits (x : Reg) : Act Effect := do
  let a ← window 3
  let v := (← machine).reg x
  writeByte a (v / 100 % 10)
  writeByte (← ask (Checked.add a 1)) (v / 10 % 10)
  writeByte (← ask (Checked.add a 2)) (v % 10)
  return {}

/-- The effect of storing `V0` up to `Vx` at `I`. -/
def execStoreRegs (x : Reg) : Act Effect := do
  let count ← ask (Checked.add x 1)
  let a ← window count
  writeBlock a (← ask ((← machine).readRegs count))
  return {}

/-- The effect of loading `V0` up to `Vx` from `I`. -/
def execLoadRegs (x : Reg) : Act Effect := do
  let count ← ask (Checked.add x 1)
  let a ← window count
  let values ← ask ((← machine).memory.readBlock a count)
  let m ← ask ((← machine).writeRegs values)
  change fun _ => m
  return {}

/-- The effect of an operation on one register. -/
def execSingle (op : SingleOp) (x : Reg) : Act Effect :=
  match op with
  | .skipDown => do
    let m ← machine
    return { route := .skipIf (m.keyDown (m.reg x)) }
  | .skipUp => do
    let m ← machine
    return { route := .skipIf (!m.keyDown (m.reg x)) }
  | .readDelay => do
    change fun m => m.setReg x m.delay
    return {}
  | .awaitKey => execAwaitKey x
  | .setDelay => do
    change fun m => { m with delay := m.reg x }
    return {}
  | .setSound => do
    change fun m => { m with sound := m.reg x }
    return { notice := .sound }
  | .addIndex => do
    change fun m => { m with index := m.index + (m.reg x).toUInt16 }
    return {}
  | .loadGlyph => execLoadGlyph x
  | .storeDigits => execStoreDigits x
  | .storeRegs => execStoreRegs x
  | .loadRegs => execLoadRegs x

/-- The effect of an instruction. -/
def exec (random : UInt8) : Instr → Act Effect
  | .clear => do
    change fun m => { m with screen := Screen.blank }
    askRedraw
    return { notice := .draw }
  | .ret => do
    if (← machine).stack.isEmpty then fault .stackUnderflow
    else return { route := .to (← pop).toNat, notice := .jump }
  | .addr op a => execAddr op a
  | .byte op x k => execByte random op x k
  | .pair op x y => execPair op x y
  | .draw x y n => execDraw x y n
  | .single op x => execSingle op x

/-- An instruction is executed and the program counter moved. -/
def execute (random : UInt8) (i : Instr) : Act Notice := do
  let pc := (← machine).pc
  let e ← exec random i
  let target ← ask (e.route.target pc)
  change fun m => { m with pc := target }
  return e.notice

end Act

end ChipEight
