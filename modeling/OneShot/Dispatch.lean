import OneShot.Host
import OneShot.Table

/-!
# The dispatch loop

The loop drives a source and answers what it yields from a table. An action without an entry
is forwarded: the loop itself suspends with it, and the next value that it is driven with is
the answer. An entry that cannot be called is the answer. A handler is called with the
parameters and a new token. If it returns a computation, the loop runs that to its end first
and suspends with everything it yields. Then the token decides.
-/

namespace OneShot.Dispatch

/-- Where a suspended loop goes on. -/
inductive Phase where
  /-- The source has not been driven yet. -/
  | start
  /-- The next value is for the source. -/
  | forwarding
  /-- The next value is for the computation that the handler of `action` returned. -/
  | handlerBody (computation : Nat) (action : Value) (token : Nat)

/-- What the loop does next. -/
inductive Decision where
  /-- Drives the source with a value. -/
  | proceed (value : Value)
  | stop (move : Move Phase)

variable {W : Type}

/-- Acts on the token of an action whose handler has ended. -/
def conclude (host : Host W) (action : Value) (token : Nat) : Exec W Decision := do
  match ← host.outcome token with
  | none => host.fail (.contract action (.str Token.neverSettled))
  | some (.abort v) =>
    host.note (.aborted action)
    return .stop (.complete v)
  | some (.resume v) =>
    host.note (.resumed action)
    return .proceed v

/-- Drives the computation that a handler returned. -/
def runBody (host : Host W) (computation : Nat) (action : Value) (token : Nat) (v : Value) :
    Exec W Decision := do
  match ← host.drive computation v with
  | .suspended x => return .stop (.suspend x (.handlerBody computation action token))
  | .completed _ => conclude host action token

/-- Calls the handler of an action. -/
def callHandler (host : Host W) (handler action : Value) (parameters : List Value) :
    Exec W Decision := do
  let token ← host.issue action
  let returned ← host.call handler (parameters ++ [.tactics token])
  match returned.computation? with
  | some computation =>
    host.note (.driving action)
    runBody host computation action token .nil
  | none => conclude host action token

def parametersOf : Value → List Value
  | .action _ _ _ _ parameters => parameters
  | _ => []

/-- Decides about a value that the source has yielded. -/
def resolve (host : Host W) (table : Table) (yielded : Value) : Exec W Decision := do
  match table.claim yielded with
  | .notKey name => host.fail (.refused name.keyRefusal)
  | .unclaimed =>
    host.note (.forwarding yielded)
    return .stop (.suspend yielded .forwarding)
  | .entry entry =>
    if entry.isCallable then
      callHandler host entry yielded (parametersOf yielded)
    else
      host.note (.resolved yielded)
      return .proceed entry

/-- Reacts to a step of the source. -/
def react (host : Host W) (table : Table) : Step → Exec W Decision
  | .suspended yielded => resolve host table yielded
  | .completed result => pure (.stop (.complete result))

/-- Carries out decisions until the loop suspends or completes. At most `bound` times the source
is driven. -/
def proceed (host : Host W) (table : Table) (source : Value → Exec W Step) :
    Nat → Decision → Exec W (Move Phase)
  | _, .stop move => pure move
  | 0, .proceed _ => Exec.exhausted
  | bound + 1, .proceed v => do
    let step ← source v
    proceed host table source bound (← react host table step)

/-- Takes up a loop where it was suspended. -/
def takeUp (host : Host W) : Phase → Value → Exec W Decision
  | .start, _ => pure (.proceed .nil)
  | .forwarding, v => pure (.proceed v)
  | .handlerBody computation action token, v => runBody host computation action token v

/-- One drive of the loop. -/
def advance (host : Host W) (table : Table) (source : Value → Exec W Step) (bound : Nat)
    (phase : Phase) (v : Value) : Exec W (Move Phase) := do
  proceed host table source bound (← takeUp host phase v)

end OneShot.Dispatch
