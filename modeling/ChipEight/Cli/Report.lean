import ChipEight.Cli.Command
import ChipEight.Fault
import ChipEight.Settings

/-!
# ChipEight.Cli.Report — what the command line answers

A report is an exit status, the texts for the two output streams, and the records logged as errors.
-/

namespace ChipEight.Cli

/-- The version of the program. -/
def version : String := "0.4.0"

/-- The exit status for wrong arguments. -/
abbrev usageStatus : Nat := 64

/-- What the program says about itself. -/
def usage : String :=
  "Chip8 v" ++ version ++ "\n" ++
  "\n" ++
  "usage: chip8 CMD FILE [OPTIONS]\n" ++
  "\n" ++
  "commands:\n" ++
  "    run     Run the target ROM file, then print the screen\n" ++
  "    dis     Disassemble the target ROM into readable instructions\n" ++
  "\n" ++
  "options:\n" ++
  "    --conf FILE      YAML file with interpreter settings\n" ++
  "    --seconds N      How long to run the ROM for (default 2)\n" ++
  "    --key K          Hold down keypad key K (0-F) while running\n" ++
  "\n" ++
  "examples:\n" ++
  "    chip8 run maze.rom\n" ++
  "    chip8 run pong.rom --conf chip8.yaml --seconds 10 --key 5\n" ++
  "    chip8 dis maze.rom\n" ++
  "\n"

/-- Why a command was not carried out. -/
inductive Error where
  /-- The machine failed. -/
  | machine (f : Failure)
  /-- A file could not be read, for the reason given by the system. -/
  | file (reason : String)
  | config (e : SettingsError)
  | usage (e : UsageError)
  /-- The program was stopped by a fault of its own at this address. -/
  | stopped (pc : Nat)
  deriving DecidableEq, Repr

namespace Error

/-- What an error is about. -/
def detail : Error → String
  | .machine (.fault f) => f.message
  | .machine (.breach b) => b.message
  | .file reason => reason
  | .config e => "invalid config: " ++ e.message
  | .usage e => e.message
  | .stopped pc => "program stopped on error at " ++ Hex.padded 4 pc

/-- The text of an error. -/
def message (e : Error) : String := "application error: " ++ e.detail

end Error

/-- What the command line answers. -/
structure Report where
  status : Nat := 0
  stdout : String := ""
  stderr : String := ""
  /-- The texts of the records logged as errors. -/
  log : List String := []
  deriving DecidableEq, Repr

namespace Report

/-- Wrong arguments: what is wrong, and how it should be. -/
def ofUsage (e : UsageError) : Report where
  status := usageStatus
  stdout := usage
  stderr := (Error.usage e).message ++ "\n"

/-- The command failed, and the error is logged last. -/
def failed (r : Report) (e : Error) : Report :=
  { r with status := 1, log := r.log ++ [e.message] }

end Report

end ChipEight.Cli
