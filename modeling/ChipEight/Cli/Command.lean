import ChipEight.Keypad
import ChipEight.Text.Numeral

/-!
# ChipEight.Cli.Command — what the arguments ask for

A command is to run a program or to list one.  Arguments are read from left to right and the first
problem is the one reported.  Options take the argument behind them whatever it looks like; of
several files or durations the last one counts, and keys add up.
-/

namespace ChipEight.Cli

/-- Seconds a program is run for when nothing is said. -/
abbrev defaultSeconds : Nat := 2

/-- How a program is to be run. -/
structure RunOptions where
  file : String
  /-- The file with the configuration. -/
  config : Option String := none
  seconds : Nat := defaultSeconds
  /-- The keys held down, in the order given. -/
  keys : List Key := []
  deriving DecidableEq, Repr

/-- A command. -/
inductive Command where
  | run (options : RunOptions)
  | dis (file : String)
  deriving DecidableEq, Repr

/-- What is wrong with the arguments. -/
inductive UsageError where
  | missingCommand
  | unknownCommand (name : String)
  | missingArgument (name : String)
  | unknownOption (name : String)
  | invalidSeconds (text : String)
  | invalidKey (text : String)
  deriving DecidableEq, Repr

/-- The text of such an error. -/
def UsageError.message : UsageError → String
  | .missingCommand => "missing command"
  | .unknownCommand name => "unknown command: " ++ name
  | .missingArgument name => "missing argument: " ++ name
  | .unknownOption name => "unknown option: " ++ name
  | .invalidSeconds text => "invalid seconds: " ++ text
  | .invalidKey text => "invalid key: " ++ text

/-- A number of seconds: a decimal numeral of 64 bits. -/
def seconds? (text : String) : Option Nat := Numeral.read? 10 Numeral.limit64 text

/-- A key: a hexadecimal numeral of 8 bits that names one. -/
def key? (text : String) : Option Key := (Numeral.read? 16 255 text).bind Key.ofNat?

namespace RunOptions

/-- The options one after the other, on top of those given before. -/
def extend (o : RunOptions) : List String → Except UsageError RunOptions
  | [] => .ok o
  | [flag] =>
    if flag = "--conf" ∨ flag = "--seconds" ∨ flag = "--key" then .error (.missingArgument flag)
    else .error (.unknownOption flag)
  | flag :: value :: rest =>
    if flag = "--conf" then { o with config := some value }.extend rest
    else if flag = "--seconds" then
      match seconds? value with
      | some n => { o with seconds := n }.extend rest
      | none => .error (.invalidSeconds value)
    else if flag = "--key" then
      match key? value with
      | some k => { o with keys := o.keys ++ [k] }.extend rest
      | none => .error (.invalidKey value)
    else .error (.unknownOption flag)

end RunOptions

namespace Command

/-- The command of a list of arguments. -/
def parse : List String → Except UsageError Command
  | [] => .error .missingCommand
  | name :: rest =>
    if name = "run" then
      match rest with
      | [] => .error (.missingArgument "FILE")
      | file :: options => ({ file : RunOptions }.extend options).map .run
    else if name = "dis" then
      match rest with
      | [] => .error (.missingArgument "FILE")
      | file :: _ => .ok (.dis file)
    else .error (.unknownCommand name)

/-- The files a command reads, in order. -/
def files : Command → List String
  | .run o => o.config.toList ++ [o.file]
  | .dis file => [file]

end Command

end ChipEight.Cli
