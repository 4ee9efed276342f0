import ChipEight.Fault
import ChipEight.Instr.Mnemonic
import ChipEight.Keypad

/-!
# ChipEight.Record — what the machine tells the host

Signals ask the host to do something now: show the screen, sound the buzzer, hear of a fault.
Records are entries of a log, each with a level and a text.
-/

namespace ChipEight

/-- A signal to the host. -/
inductive Signal where
  /-- The screen changed since the last such signal. -/
  | redraw
  /-- The buzzer is on for this tick. -/
  | beep
  /-- The program is wrong. -/
  | error (f : Fault)
  deriving DecidableEq, Repr

/-- How important a record is. -/
inductive Level where
  | trace
  | debug
  | info
  | error
  deriving DecidableEq, Repr

/-- The name of a level. -/
def Level.name : Level → String
  | .trace => "TRACE"
  | .debug => "DEBUG"
  | .info => "INFO"
  | .error => "ERROR"

/-- The two tasks that drive a playing machine. -/
inductive Task where
  /-- Executes instructions. -/
  | cpu
  /-- Ticks the timers. -/
  | timer
  deriving DecidableEq, Repr

/-- The name of a task. -/
def Task.name : Task → String
  | .cpu => "chip8-cpu"
  | .timer => "chip8-timer"

/-- An entry of the log. -/
inductive Record where
  /-- The instruction at `pc` is about to be executed. -/
  | executing (pc : Nat) (i : Instr)
  | keyDown (k : Key)
  | keyUp (k : Key)
  | taskStarted (t : Task)
  | taskStopped (t : Task)
  /-- A program of `size` bytes was loaded. -/
  | loaded (size : Nat)
  | resumed (pc : Nat)
  | suspended (pc : Nat)
  | failed (f : Fault)
  deriving DecidableEq, Repr

namespace Record

/-- The level of a record. -/
def level : Record → Level
  | .executing _ _ => .trace
  | .keyDown _ | .keyUp _ | .taskStarted _ | .taskStopped _ => .debug
  | .loaded _ | .resumed _ | .suspended _ => .info
  | .failed _ => .error

/-- The text of a record. -/
def message : Record → String
  | .executing pc i => Hex.padded 4 pc ++ ": " ++ i.mnemonic
  | .keyDown k => "key down: " ++ k.text
  | .keyUp k => "key up: " ++ k.text
  | .taskStarted t => t.name ++ " task started"
  | .taskStopped t => t.name ++ " task stopped"
  | .loaded n => "loaded program of " ++ toString n ++ " bytes"
  | .resumed pc => "resume at " ++ Hex.padded 4 pc
  | .suspended pc => "suspend at " ++ Hex.padded 4 pc
  | .failed f => f.message

/-- A record as one line: level and text. -/
def line (r : Record) : String := r.level.name ++ " " ++ r.message

end Record

end ChipEight
