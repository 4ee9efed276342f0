import ChipEight.Cli.FileTree
import ChipEight.Cli.Report
import ChipEight.Player.Drive
import ChipEight.Vm.Listing

/-!
# ChipEight.Cli.Execution — commands carried out

A command sees the files through a function and answers a report, so all of it is computed; time
is counted in periods of the timers and not waited for.  A run is prepared (`prepare`), played by
the two threads until its time is over or the program has stopped on a fault of its own, and
reported from where it then stands (`ofRun`).
-/

namespace ChipEight.Cli

/-- The texts of the records of level error. -/
def errorTexts (log : List Record) : List String :=
  (log.filter fun r => r.level == .error).map Record.message

/-- The configuration a run is to have. -/
def readConfig (files : Files) : Option String → Except Error Config
  | none => .ok {}
  | some file =>
    match files file with
    | .nothing reason => .error (.file reason)
    | .directory => .error (.config (.unreadable PathError.isDirectory.message))
    | .file bytes =>
      match Settings.ofBytes bytes with
      | .ok config => .ok config
      | .error e => .error (.config e)

/-- A file that is needed. -/
def readFile (files : Files) (file : String) : Except Error (List UInt8) :=
  match files file with
  | .file bytes => .ok bytes
  | .directory => .error (.file PathError.isDirectory.message)
  | .nothing reason => .error (.file reason)

/-- A player with the program loaded and the keys pressed. -/
def loaded (config : Config) (program : List UInt8) (keys : List Key) : Except Report Player :=
  let r := (Player.new (Vm.new config)).perform (.load program)
  match r.result with
  | .ok () => .ok (keys.foldl (fun r k => r.perform (.keyDown k)) r)
  | .error f => .error (Report.failed { log := errorTexts r.log.toList } (.machine f))

/-- A player ready to be started; the configuration is read before the program. -/
def prepare (files : Files) (o : RunOptions) : Except Report Player :=
  match readConfig files o.config with
  | .error e => .error (Report.failed {} e)
  | .ok config =>
    match readFile files o.file with
    | .error e => .error (Report.failed {} e)
    | .ok program => loaded config program o.keys

/-- The faults of the running program that the host was told. -/
def stops (r : Player) : List Fault :=
  r.signals.toList.filterMap fun
    | .error f => if f.isRuntime then some f else none
    | _ => none

/-- The program has stopped on a fault of its own. -/
def isStopped (r : Player) : Bool := !(stops r).isEmpty

/-- The report on a run that is over. -/
def ofRun (r : Player) : Report :=
  let m := r.vm.machine
  let report : Report :=
    { stdout := m.screen.text ++ "\n" ++ "pc: " ++ Hex.padded 4 m.pc ++ "\n"
      stderr := String.join ((stops r).map fun f => "program stopped: " ++ f.message ++ "\n")
      log := errorTexts r.log.toList }
  if isStopped r then report.failed (.stopped m.pc) else report

/-- The shortest pause between two instructions, in nanoseconds. -/
abbrev leastInterval : Nat := 1000

/-- Number of instructions due before so many periods of the timers are over; the first one is due
at once. -/
def due (config : Config) (periods : Nat) : Nat :=
  let d := max config.interval leastInterval
  (periods * timerInterval + d - 1) / d

/-- Number of instructions due in a period of the timers. -/
def pace (config : Config) (period : Nat) : Nat := due config (period + 1) - due config period

/-- A player started, played for a time, and stopped. -/
def play (seed : UInt64) (seconds : Nat) (r : Player) : Player :=
  let started := Session.perform ⟨r, seed⟩ .resume
  let played := started.playUntil isStopped (pace r.vm.config) (timerFrequency * seconds)
  (played.perform .suspend).player

/-- A program run. -/
def run (files : Files) (seed : UInt64) (o : RunOptions) : Report :=
  match prepare files o with
  | .error report => report
  | .ok r => ofRun (play seed o.seconds r)

/-- A program listed; a last odd byte is shown with the byte behind it. -/
def dis (files : Files) (file : String) : Report :=
  match readFile files file with
  | .error e => Report.failed {} e
  | .ok program =>
    let o := (Vm.new {}).load program
    match o.result with
    | .error f => Report.failed { log := errorTexts o.log } (.machine f)
    | .ok () =>
      match o.vm.listing (program.length + program.length % 2) with
      | .ok text => { stdout := text }
      | .error b => { log := ["disassembly failed: " ++ b.message] }

/-- The command of the arguments carried out. -/
def execute (files : Files) (seed : UInt64) (args : List String) : Report :=
  match Command.parse args with
  | .error e => Report.ofUsage e
  | .ok (.run o) => run files seed o
  | .ok (.dis file) => dis files file

end ChipEight.Cli
