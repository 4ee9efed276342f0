import ChipEight.Player.Basic

/-!
# ChipEight.Player.Step — the moves of host and threads

A move is the begin of a call, one more step of the call in progress, or one step of a thread.
Moves interleave in any order, so what holds after every list of moves holds however threads are
scheduled.  Looking at the flag, doing one step of the task under the machine's lock, leaving the
loop and coming to an end are separate steps of a thread.
-/

namespace ChipEight

/-- A move of one party. -/
inductive Move where
  /-- The host begins a call. -/
  | call (c : Call)
  /-- The host's call goes on. -/
  | host
  /-- A thread goes on; the byte is what a random instruction would get. -/
  | thread (id : ThreadId) (random : UInt8)
  deriving DecidableEq, Repr

namespace Player

/-- Both threads are stopped, then the call goes on; nothing has to be stopped when none was
started. -/
def stopThen (r : Player) (sequel : Sequel) : Player :=
  if r.isRunning then { r with running := false, host := .joining sequel }
  else { r with host := .ofSequel sequel }

/-- The host begins a call. -/
def begin (r : Player) : Call → Player
  | .load program => r.stopThen (.load program)
  | .resume =>
    if r.handles.any r.isFinished then r.stopThen .start
    else if r.isRunning then { r with host := .ready (.ok ()) }
    else { r with host := .resuming }
  | .suspend => r.stopThen .nothing
  | .keyDown k => { r.absorb (r.vm.keyDown k) with host := .ready (.ok ()) }
  | .keyUp k => { r.absorb (r.vm.keyUp k) with host := .ready (.ok ()) }

/-- A thread is spawned and its handle kept. -/
def spawn (r : Player) (t : Task) : Player :=
  { r with
    threads := r.threads ++ [⟨⟨r.round, t⟩, .starting⟩]
    handles := r.handles ++ [⟨r.round, t⟩] }

/-- The host's call goes on, unless it has ended or waits for a thread. -/
def hostStep? (r : Player) : Option Player :=
  match r.host with
  | .ready _ => none
  | .joining sequel =>
    match r.handles with
    | [] => some { r with host := .settling sequel }
    | id :: rest =>
      if r.isFinished id then
        some { r with handles := rest, threads := r.threads.filter fun t => t.id ≠ id }
      else none
  | .settling sequel => some { r.absorb r.vm.suspend with host := .ofSequel sequel }
  | .loading program =>
    let o := r.vm.load program
    some { r.absorb o with host := .ready o.result }
  | .resuming => some { r.absorb r.vm.resume with host := .raising }
  | .raising => some { r with running := true, round := r.round + 1, host := .spawning .cpu }
  | .spawning .cpu => some { r.spawn .cpu with host := .spawning .timer }
  | .spawning .timer => some { r.spawn .timer with host := .ready (.ok ()) }

/-- One step of a task: an instruction or a tick.  The processor's loop ends with the first
failure. -/
def taskStep (r : Player) (id : ThreadId) (random : UInt8) : Player :=
  match id.task with
  | .cpu =>
    let o := r.vm.cycle random
    (r.absorb o).setPhase id (match o.result with
      | .ok _ => .checking
      | .error _ => .stopping)
  | .timer => (r.absorb r.vm.tick).setPhase id .checking

/-- A thread goes on, unless it has come to its end. -/
def threadStep? (r : Player) (id : ThreadId) (random : UInt8) : Option Player :=
  match r.phase? id with
  | none | some .finished => none
  | some .starting => some ((r.note (.taskStarted id.task)).setPhase id .checking)
  | some .checking => some (r.setPhase id (if r.running then .stepping else .stopping))
  | some .stepping => some (r.taskStep id random)
  | some .stopping => some ((r.note (.taskStopped id.task)).setPhase id .finished)

/-- A move, if it can be made. -/
def step? (r : Player) : Move → Option Player
  | .call c => if r.host.isReady then some (r.begin c) else none
  | .host => r.hostStep?
  | .thread id random => r.threadStep? id random

/-- A list of moves, if each can be made. -/
def steps? (r : Player) : List Move → Option Player
  | [] => some r
  | m :: ms => (r.step? m).bind fun r' => r'.steps? ms

end Player

end ChipEight
