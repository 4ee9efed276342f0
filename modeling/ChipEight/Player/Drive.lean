import ChipEight.Noise
import ChipEight.Player.Step

/-!
# ChipEight.Player.Drive — one fair order of moves

A player on its own only says which moves there are.  Here they are made in a fixed order: a call
of the host is brought to its end, waiting for threads where it must; between calls the threads
take turns, several instructions to a tick.
-/

namespace ChipEight

namespace Player

/-- Steps enough to end any call. -/
def callSteps : Nat := 64

/-- The call in progress is brought to its end in at most so many steps.  Where the host waits for
a thread, that thread goes on. -/
def settle (random : UInt8) : Nat → Player → Player
  | 0, r => r
  | k + 1, r =>
    match r.hostStep? with
    | some r' => settle random k r'
    | none =>
      if r.host.isReady then r
      else
        match r.handles.head?.bind fun id => r.threadStep? id random with
        | some r' => settle random k r'
        | none => r

/-- A call of the host, from its begin to its end. -/
def perform (r : Player) (c : Call) : Player := settle 0 callSteps (r.begin c)

/-- The result of the host's last call. -/
def result (r : Player) : Except Failure Unit :=
  match r.host with
  | .ready result => result
  | _ => .ok ()

/-- A thread goes on until it has done one step of its task and is about to look at the flag again,
or until its end, in at most so many steps. -/
def turnWithin (id : ThreadId) (random : UInt8) : Nat → Player → Player
  | 0, r => r
  | k + 1, r =>
    match r.threadStep? id random with
    | none => r
    | some r' =>
      match r.phase? id, r'.phase? id with
      | some .stepping, some .checking => r'
      | _, _ => turnWithin id random k r'

/-- The thread of a task takes its turn: one step of the task, and if it fails or the flag is down,
what is left of the thread. -/
def turn (r : Player) (t : Task) (random : UInt8) : Player :=
  match r.handle? t with
  | some id => turnWithin id random 4 r
  | none => r

end Player

/-- A player and the noise that its random instructions get. -/
structure Session where
  player : Player
  noise : UInt64

namespace Session

/-- A call of the host. -/
def perform (s : Session) (c : Call) : Session := { s with player := s.player.perform c }

/-- So many turns of the processor's thread. -/
def cycles : Nat → Session → Session
  | 0, s => s
  | k + 1, s => cycles k ⟨s.player.turn .cpu (Noise.byte s.noise), Noise.advance s.noise⟩

/-- One period of the timers: so many turns of the processor's thread, then one of the timers'. -/
def period (turns : Nat) (s : Session) : Session :=
  let s := cycles turns s
  { s with player := s.player.turn .timer 0 }

/-- At most so many periods from a given one on, up to the first after which the condition holds;
`turns` tells how many turns of the processor's thread a period has. -/
def playFrom (done : Player → Bool) (turns : Nat → Nat) (first : Nat) :
    Nat → Session → Session
  | 0, s => s
  | k + 1, s =>
    if done s.player then s else playFrom done turns (first + 1) k (period (turns first) s)

/-- At most so many periods, up to the first after which the condition holds. -/
def playUntil (done : Player → Bool) (turns : Nat → Nat) (periods : Nat) (s : Session) :
    Session :=
  playFrom done turns 0 periods s

end Session

end ChipEight
