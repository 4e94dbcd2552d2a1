import OneShot.Computation
import OneShot.Tactics

/-!
# What handling needs from the world

The dispatch loop and the tracer work over any world that offers these services.
-/

namespace OneShot

/-- A record of the dispatch loop or of a tracer. -/
inductive Note where
  | forwarding (action : Value)
  | resolved (action : Value)
  | driving (action : Value)
  | aborted (action : Value)
  | resumed (action : Value)
  | traceSuspended (label : Value) (step : Nat) (action : Value)
  | traceResumed (label : Value) (step : Nat) (value : Value)
  | traceCompleted (label : Value) (steps : Nat) (result : Value)

/-- The services of a world `W`. -/
structure Host (W : Type) where
  /-- Drives a computation by one step. -/
  drive : Nat → Value → Exec W Step
  /-- Calls a value with arguments. -/
  call : Value → List Value → Exec W Value
  /-- Makes a pending token for an action. -/
  issue : Value → Exec W Nat
  /-- The decision that a token has recorded so far. -/
  outcome : Nat → Exec W (Option Outcome)
  /-- Takes a decision through a value that stands for a token. -/
  settle : Value → Outcome → Exec W Unit
  note : Note → Exec W Unit
  /-- Makes a new error object. -/
  mint : Cause Value → Exec W Error

namespace Host

variable {W α : Type}

def fail (host : Host W) (cause : Cause Value) : Exec W α := do
  Exec.raise (← host.mint cause)

end Host

end OneShot
