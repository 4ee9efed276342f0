import ChipEight.Vm.Listing

/-!
# ChipEight.Vm.History — everything a host can do, as data

An operation with its arguments is a value, so a history is a list of them, and the states that a
machine can get into are those at the end of a history that begins with a new machine.  The random
bytes that a cycle may use are part of the operation.
-/

namespace ChipEight

/-- An operation of the host. -/
inductive Operation where
  | load (program : List UInt8)
  | cycle (random : UInt8)
  | run (randoms : List UInt8)
  | tick
  | keyDown (k : Key)
  | keyUp (k : Key)
  | resume
  | suspend
  /-- The program in memory as text. -/
  | listing (count : Nat)
  /-- The held keys as text. -/
  | keys
  /-- The screen as text. -/
  | screen
  deriving DecidableEq, Repr

/-- What the host gets back. -/
inductive Answer where
  | done
  | notice (f : Notice)
  | text (s : String)
  deriving DecidableEq, Repr

namespace Vm

/-- One operation is carried out. -/
def perform (op : Operation) (vm : Vm) : Outcome (Except Failure Answer) :=
  match op with
  | .load program => (vm.load program).map fun r => r.map fun _ => .done
  | .cycle random => (vm.cycle random).map fun r => r.map .notice
  | .run randoms => (vm.run randoms).map fun r => r.map .notice
  | .tick => vm.tick.map fun _ => .ok .done
  | .keyDown k => (vm.keyDown k).map fun _ => .ok .done
  | .keyUp k => (vm.keyUp k).map fun _ => .ok .done
  | .resume => vm.resume.map fun _ => .ok .done
  | .suspend => vm.suspend.map fun _ => .ok .done
  | .listing count => ⟨vm, (Failure.ofComponent (vm.listing count)).map .text, [], []⟩
  | .keys => ⟨vm, .ok (.text vm.machine.keypad.report), [], []⟩
  | .screen => ⟨vm, .ok (.text vm.machine.screen.text), [], []⟩

/-- Operations carried out one after the other; a failing one does not stop the others.  The
results are in order. -/
def performAll : List Operation → Vm → Outcome (List (Except Failure Answer))
  | [], vm => ⟨vm, [], [], []⟩
  | op :: ops, vm =>
    let ⟨vm, r, signals, log⟩ := vm.perform op
    ((performAll ops vm).map (r :: ·)).behind signals log

/-- The machine at the end of a history. -/
def afterAll (ops : List Operation) (vm : Vm) : Vm := (vm.performAll ops).vm

end Vm

end ChipEight
