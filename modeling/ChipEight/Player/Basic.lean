import ChipEight.Vm.Control

/-!
# ChipEight.Player.Basic — a machine driven by two threads

While a machine plays, one thread executes its instructions and another ticks its timers.  The
host starts and stops both and may reach the machine at any time.  The state here is that of all
parties together: the machine, the flag that tells the threads to go on, the threads themselves,
those the host still has a handle on, and how far the host's present call has come.
-/

namespace ChipEight

/-- A thread: the task it does, and the start that spawned it. -/
structure ThreadId where
  round : Nat
  task : Task
  deriving DecidableEq, Repr

/-- How far a thread has come. -/
inductive Phase where
  /-- Spawned. -/
  | starting
  /-- About to look at the flag. -/
  | checking
  /-- The flag was up: one step of the task is due. -/
  | stepping
  /-- Out of its loop. -/
  | stopping
  /-- At its end, as the host sees it. -/
  | finished
  deriving DecidableEq, Repr

/-- A thread and how far it has come. -/
structure Thread where
  id : ThreadId
  phase : Phase
  deriving DecidableEq, Repr

/-- A call of the host. -/
inductive Call where
  | load (program : List UInt8)
  | resume
  | suspend
  | keyDown (k : Key)
  | keyUp (k : Key)
  deriving DecidableEq, Repr

/-- What a call does once both threads are gone. -/
inductive Sequel where
  | nothing
  | load (program : List UInt8)
  | start
  deriving DecidableEq, Repr

/-- How far the host's call has come. -/
inductive HostPhase where
  /-- No call is in progress; the last one had this result. -/
  | ready (result : Except Failure Unit)
  /-- The flag is down, the threads are waited for one after the other. -/
  | joining (sequel : Sequel)
  /-- The threads are gone, the machine is still to be suspended. -/
  | settling (sequel : Sequel)
  /-- The program is still to be loaded. -/
  | loading (program : List UInt8)
  /-- The machine is still to be resumed. -/
  | resuming
  /-- The flag is still to be raised. -/
  | raising
  /-- The thread of this task is still to be spawned. -/
  | spawning (t : Task)

namespace HostPhase

/-- No call is in progress. -/
def isReady : HostPhase → Bool
  | .ready _ => true
  | _ => false

/-- Where a call goes on once the machine is stopped. -/
def ofSequel : Sequel → HostPhase
  | .nothing => .ready (.ok ())
  | .load program => .loading program
  | .start => .resuming

end HostPhase

/-- All parties. -/
structure Player where
  vm : Vm
  /-- The flag that tells the threads to go on. -/
  running : Bool
  /-- The threads that have not been waited for, in the order they were spawned. -/
  threads : List Thread
  /-- The threads the host has a handle on, in the order they were spawned. -/
  handles : List ThreadId
  /-- Number of starts so far. -/
  round : Nat
  host : HostPhase
  /-- Every signal so far. -/
  signals : Array Signal
  /-- Every record so far, without the traces of instructions. -/
  log : Array Record

namespace Player

/-- A machine that no thread drives. -/
def new (vm : Vm) : Player where
  vm := vm
  running := false
  threads := []
  handles := []
  round := 0
  host := .ready (.ok ())
  signals := #[]
  log := #[]

/-- The host has started the machine and not stopped it since. -/
def isRunning (r : Player) : Bool := !r.handles.isEmpty

/-- How far a thread has come. -/
def phase? (r : Player) (id : ThreadId) : Option Phase :=
  (r.threads.find? fun t => t.id = id).map Thread.phase

/-- The thread has come to its end. -/
def isFinished (r : Player) (id : ThreadId) : Bool := r.phase? id == some .finished

/-- A thread moves to another phase. -/
def setPhase (r : Player) (id : ThreadId) (phase : Phase) : Player :=
  { r with threads := r.threads.map fun t => if t.id = id then ⟨id, phase⟩ else t }

/-- One more record. -/
def note (r : Player) (record : Record) : Player := { r with log := r.log.push record }

/-- The outcome of an operation on the machine. -/
def absorb (r : Player) (o : Outcome α) : Player :=
  { r with
    vm := o.vm
    signals := r.signals ++ o.signals
    log := r.log ++ o.log.filter fun record => record.level != .trace }

/-- The handle on the thread of a task. -/
def handle? (r : Player) (t : Task) : Option ThreadId := r.handles.find? fun id => id.task = t

end Player

end ChipEight
