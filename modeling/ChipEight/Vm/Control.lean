import ChipEight.Vm.Exec

/-!
# ChipEight.Vm.Control — what a host does with a machine

Programs are loaded, instructions executed, timers ticked, keys pressed and clocks started and
stopped.  A cycle or a load that meets a fault logs and signals it.
-/

namespace ChipEight.Vm

/-- The operation failed.  A fault is logged and signalled. -/
def fail (vm : Vm) (f : Failure) : Outcome (Except Failure α) :=
  match f with
  | .fault f => ⟨vm, .error (.fault f), [.error f], [.failed f]⟩
  | .breach b => ⟨vm, .error (.breach b), [], []⟩

/-- The machine is reset to its beginnings and gets the glyphs and a program. -/
def install (program : List UInt8) : Act Unit := do
  Act.change fun _ => Machine.blank
  Act.writeBlock Font.start Font.rows
  Act.writeBlock Machine.programStart program
  modify fun vm => { vm with redraw := true, state := .idle }

/-- A program is loaded, unless it is too large. -/
def load (program : List UInt8) (vm : Vm) : Outcome (Except Failure Unit) :=
  if program.length ≤ Machine.programLimit then
    match (install program).run vm with
    | .ok () vm => ⟨vm, .ok (), [], [.loaded program.length]⟩
    | .error f vm => vm.fail f
  else vm.fail (.fault (.programTooLarge program.length Machine.programLimit))

/-- The clocks start, unless they run already. -/
def resume (vm : Vm) : Outcome Unit :=
  if vm.isPlaying then ⟨vm, (), [], []⟩
  else ⟨{ vm with state := .playing false }, (), [], [.resumed vm.machine.pc]⟩

/-- The clocks stop, if they run. -/
def suspend (vm : Vm) : Outcome Unit :=
  if vm.isPlaying then ⟨{ vm with state := .idle }, (), [], [.suspended vm.machine.pc]⟩
  else ⟨vm, (), [], []⟩

/-- The host presses a key. -/
def keyDown (k : Key) (vm : Vm) : Outcome Unit :=
  ⟨{ vm with machine := { vm.machine with keypad := vm.machine.keypad.press k } }, (), [],
    [.keyDown k]⟩

/-- The host lets a key go. -/
def keyUp (k : Key) (vm : Vm) : Outcome Unit :=
  ⟨{ vm with machine := { vm.machine with keypad := vm.machine.keypad.release k } }, (), [],
    [.keyUp k]⟩

/-- One tick of the timers: the buzzer sounds while the sound timer counts, and a changed screen is
shown. -/
def tick (vm : Vm) : Outcome Unit where
  vm := { vm with machine := vm.machine.tick, redraw := false }
  result := ()
  signals := (if vm.machine.sound = 0 then [] else [.beep]) ++ (if vm.redraw then [.redraw] else [])

/-- One instruction is executed. -/
def cycle (random : UInt8) (vm : Vm) : Outcome (Except Failure Notice) :=
  match vm.machine.next with
  | .error f => vm.fail f
  | .ok i =>
    match (Act.execute random i).run vm with
    | .ok notice after => ⟨after, .ok notice, [], [.executing vm.machine.pc i]⟩
    | .error f after => (after.fail f).behind [] [.executing vm.machine.pc i]

/-- One cycle for each random byte, up to the first failure; `notice` is what the host was told
last. -/
def runFrom (notice : Notice) : List UInt8 → Vm → Outcome (Except Failure Notice)
  | [], vm => ⟨vm, .ok notice, [], []⟩
  | r :: rs, vm =>
    match vm.cycle r with
    | ⟨vm, .ok notice, signals, log⟩ => (runFrom notice rs vm).behind signals log
    | o => o

/-- One cycle for each random byte, up to the first failure. -/
def run (randoms : List UInt8) (vm : Vm) : Outcome (Except Failure Notice) := runFrom .ok randoms vm

end ChipEight.Vm
