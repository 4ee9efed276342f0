import ChipEight.Breach

/-!
# ChipEight.Fault — what a program does wrong

A fault is reported to the host.  One is raised before a program runs, when it does not fit; the
others are raised by the running program.  A failure is a fault or a breach of a component's
contract, and the interpreter never commits the latter.
-/

namespace ChipEight

/-- A wrong program. -/
inductive Fault where
  /-- The program has more bytes than fit above the load address. -/
  | programTooLarge (size limit : Nat)
  /-- The word fetched from `address` is no instruction. -/
  | unrecognized (word address : UInt16)
  | stackOverflow
  | stackUnderflow
  /-- A byte past the end of memory is needed. -/
  | outOfBounds (address : Nat)
  deriving DecidableEq, Repr

namespace Fault

/-- The text of a fault. -/
def message : Fault → String
  | .programTooLarge size limit =>
    "program too large for VM memory: " ++ toString size ++ " bytes, maximum is " ++ toString limit
  | .unrecognized w a =>
    "unrecognized opcode " ++ Hex.padded 4 w.toNat ++ " at " ++ Hex.padded 4 a.toNat
  | .stackOverflow => "corrupt program: call stack overflow"
  | .stackUnderflow => "corrupt program: call stack underflow"
  | .outOfBounds a => "corrupt program: memory access out of bounds at " ++ Hex.padded 4 a

/-- The running program raised it. -/
def isRuntime : Fault → Bool
  | .programTooLarge _ _ => false
  | _ => true

end Fault

/-- Why an operation of the machine is not carried out. -/
inductive Failure where
  | fault (f : Fault)
  | breach (b : Breach)
  deriving DecidableEq, Repr

namespace Failure

/-- A component's answer where a failure may be raised. -/
def ofComponent (e : Except Breach α) : Except Failure α :=
  match e with
  | .ok a => .ok a
  | .error b => .error (.breach b)

@[simp] theorem ofComponent_ok (a : α) : ofComponent (.ok a) = .ok a := rfl

@[simp] theorem ofComponent_error (b : Breach) :
    ofComponent (.error b : Except Breach α) = .error (.breach b) := rfl

end Failure

end ChipEight
