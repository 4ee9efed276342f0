/-!
# ChipEight.Clock — how fast the two tasks of a running machine go

A clock is given by its frequency in hertz; frequency zero means no pause at all.  Intervals are
whole nanoseconds.
-/

namespace ChipEight

/-- Nanoseconds from one beat of a clock to the next. -/
def interval (hertz : Nat) : Nat := if hertz = 0 then 0 else 1000000000 / hertz

/-- Frequency of the timers. -/
abbrev timerFrequency : Nat := 60

/-- Nanoseconds between two ticks of the timers. -/
abbrev timerInterval : Nat := 16666666

/-- Frequency of the processor when none is configured. -/
abbrev defaultFrequency : Nat := 800

/-- What a machine is configured with. -/
structure Config where
  /-- Instructions per second. -/
  clockFrequency : Option Nat := none
  deriving DecidableEq, Repr

/-- Nanoseconds between two instructions. -/
def Config.interval (c : Config) : Nat :=
  ChipEight.interval (c.clockFrequency.getD defaultFrequency)

end ChipEight
