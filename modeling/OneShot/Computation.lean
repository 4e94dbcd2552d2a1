import OneShot.Exec

/-!
# Computations

A computation runs until it suspends with a value, waits for the answer, and goes on.
`Life.drive` is the one place that decides what driving does to it: a computation that is
running refuses, one that has ended completes at once with nothing, and an error ends it.
-/

namespace OneShot

/-- What one drive of a computation gives. -/
inductive Step where
  | suspended (action : Value)
  | completed (result : Value)

/-- What the body of a computation does when it is driven: it suspends and says how it goes
on, or it completes. -/
inductive Move (S : Type) where
  | suspend (action : Value) (next : S)
  | complete (result : Value)

def Move.map {S T : Type} (f : S → T) : Move S → Move T
  | .suspend a next => .suspend a (f next)
  | .complete r => .complete r

/-- The states of a computation with body states `S`. -/
inductive Life (S : Type) where
  | fresh (body : S)
  | suspended (body : S)
  /-- The body runs. It was taken up in this state. -/
  | running (body : S)
  | finished

namespace Life

variable {S : Type}

def isFresh : Life S → Bool
  | .fresh _ => true
  | _ => false

def isRunning : Life S → Bool
  | .running _ => true
  | _ => false

def isFinished : Life S → Bool
  | .finished => true
  | _ => false

/-- The state of the body. One that runs is in the state that it was taken up in. -/
def body? : Life S → Option S
  | .fresh body | .suspended body | .running body => some body
  | .finished => none

/-- The state in which the body waits for the next drive. -/
def waiting? : Life S → Option S
  | .fresh body | .suspended body => some body
  | .running _ | .finished => none

/-- The state in which a body is left by the way its move ended. -/
def after : Result (Move S) → Life S
  | .ok (.suspend _ next) => .suspended next
  | _ => .finished

end Life

def Move.step {S : Type} : Move S → Step
  | .suspend a _ => .suspended a
  | .complete r => .completed r

/-- A place in the world that holds an `α`. -/
structure Cell (W α : Type) where
  get : W → α
  set : α → W → W

namespace Life

variable {W S : Type}

/-- Runs the body from one of its states. While it runs, its cell says so. The world may make a
new error from a cause. The end of an iteration must not leave a body, so it becomes an error
of another kind. -/
def enter (mint : Cause Value → Exec W Error) (cell : Cell W (Life S))
    (body : S → Value → Exec W (Move S)) (state : S) (v : Value) : Exec W Step := do
  Exec.modify (cell.set (.running state))
  let ended ← (body state v).attempt
  Exec.modify (cell.set (after ended))
  match ended with
  | .ok move => pure move.step
  | .raised e =>
    if e.kind = .stopIteration then Exec.raise (← mint (.refused .endOfIteration))
    else Exec.raise e
  | .exhausted => Exec.exhausted

/-- Drives the computation in `cell` with the value `v`. The first drive takes no value. -/
def drive (mint : Cause Value → Exec W Error) (cell : Cell W (Life S))
    (body : S → Value → Exec W (Move S)) (v : Value) : Exec W Step := do
  match ← Exec.read cell.get with
  | .fresh state => enter mint cell body state .nil
  | .suspended state => enter mint cell body state v
  | .running _ => Exec.raise (← mint (.refused .running))
  | .finished => pure (.completed .nil)

end Life

end OneShot
