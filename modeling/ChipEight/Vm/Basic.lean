import ChipEight.Clock
import ChipEight.Machine.Basic
import ChipEight.Record

/-!
# ChipEight.Vm.Basic — the machine under a host's control

A `Vm` is a machine with a run state, a note that the screen has to be shown again, and a
configuration.  Every operation answers an `Outcome`: the new `Vm`, a result, the signals sent and
the records logged, in order.
-/

namespace ChipEight

/-- Whether the clocks of the machine run. -/
inductive RunState where
  /-- The clocks are stopped. -/
  | idle
  /-- The clocks run; asleep while the program waits for a key. -/
  | playing (asleep : Bool)
  deriving DecidableEq, Repr

namespace RunState

/-- The clocks run. -/
def isPlaying : RunState → Bool
  | .idle => false
  | .playing _ => true

/-- Asleep or awake, if playing at all. -/
def setAsleep (asleep : Bool) : RunState → RunState
  | .idle => .idle
  | .playing _ => .playing asleep

end RunState

/-- A machine under control. -/
structure Vm where
  machine : Machine
  state : RunState
  /-- The screen changed since the host was last told. -/
  redraw : Bool
  config : Config
  deriving DecidableEq

/-- What an operation on a machine leads to. -/
structure Outcome (α : Type) where
  vm : Vm
  result : α
  signals : List Signal := []
  log : List Record := []

namespace Outcome

/-- This outcome, with earlier signals and records in front. -/
def behind (o : Outcome α) (signals : List Signal) (log : List Record) : Outcome α :=
  { o with signals := signals ++ o.signals, log := log ++ o.log }

/-- The outcome with its result replaced. -/
def map (f : α → β) (o : Outcome α) : Outcome β := ⟨o.vm, f o.result, o.signals, o.log⟩

end Outcome

namespace Vm

/-- A machine just built: idle, with the glyphs in memory and nothing to show. -/
def new (config : Config) : Vm where
  machine := { Machine.blank with memory := Font.memory }
  state := .idle
  redraw := false
  config := config

/-- The clocks run. -/
def isPlaying (vm : Vm) : Bool := vm.state.isPlaying

end Vm

end ChipEight
