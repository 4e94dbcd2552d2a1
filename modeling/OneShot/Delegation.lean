import Std.Data.HashSet
import OneShot.Holding
import OneShot.Program

/-!
# Delegation

A computation can suspend while it is delegated to another one. It then owns that one: if nothing
holds the owner any more, both are closed. Nobody sees the closing itself. It shows when the other
one is driven again, so that is when it is decided.
-/

namespace OneShot

namespace Delegation

variable {L : Language}

/-- The computation that a suspended body is delegated to. -/
def delegate? (program : Program L) : Body L → Option Nat
  | .task state => program.delegate? state
  | .handling _ _ (.handlerBody computation _ _) => some computation
  | _ => none

/-- The computation that a suspended computation is delegated to. -/
def of? (program : Program L) (w : World L) (owner : Nat) : Option Nat :=
  match (World.lifeCell owner).get w with
  | .suspended body => delegate? program body
  | _ => none

/-- The owners of a computation: they are suspended while they are delegated to it. -/
def owners (program : Program L) (w : World L) (computation : Nat) : List Nat :=
  match w.computations.get? computation with
  | some c => c.delegators.filter fun owner => of? program w owner = some computation
  | none => []

/-- The computations that drive a computation as their source and have not ended. -/
def wrappers (w : World L) (computation : Nat) : List Nat :=
  match w.computations.get? computation with
  | some c => c.wrappers.filter fun wrapper => !((World.lifeCell wrapper).get w).isFinished
  | none => []

/-- The computations that lead to a computation. -/
def holders (program : Program L) (w : World L) (computation : Nat) : List Nat :=
  owners program w computation ++ wrappers w computation

/-- The computations that a computation leads to. -/
def parts (program : Program L) (w : World L) (computation : Nat) : List Nat :=
  match ((World.lifeCell computation).get w).body? with
  | some body => body.source?.toList ++ (delegate? program body).toList
  | none => []

/-- Gathers what a step leads to from the given identities. -/
def gather (next : Nat → List Nat) :
    (steps : Nat) → (todo : List Nat) → (found : Std.HashSet Nat) → Std.HashSet Nat
  | 0, _, found => found
  | _, [], found => found
  | steps + 1, id :: todo, found =>
    if found.contains id then gather next steps todo found
    else gather next steps (next id ++ todo) (found.insert id)

def gatherSteps : Nat := 1000000000

/-- Some computations with all that lead to them, over any number of others. -/
def ancestors (program : Program L) (w : World L) (computations : List Nat) : List Nat :=
  (gather (holders program w) gatherSteps computations {}).toList

/-! ## Closing -/

/-- Those of the computations that nothing holds any more. Most are held in an obvious way: one that
leads to them is running, has been handed on or is the value of a variable. -/
def lost (program : Program L) (w : World L) (computations : List Nat) : List Nat :=
  let top := (ancestors program w computations).filter fun id => w.isRoot id || program.names w id
  let held := gather (parts program w) gatherSteps top {}
  match computations.filter (!held.contains ·) with
  | [] => []
  | doubtful => program.lost w doubtful

/-- The suspended delegations that can come to bear on a computation. -/
def delegations (program : Program L) (w : World L) (computation : Nat) : List Nat :=
  (ancestors program w [computation]).filter fun owner => (of? program w owner).isSome

/-- Closes a suspended computation and what it is delegated to. One that runs goes on. -/
def close (program : Program L) : (depth : Nat) → (computation : Nat) → World L → World L
  | 0, _, w => w
  | depth + 1, computation, w =>
    match (World.lifeCell computation).get w with
    | .suspended body =>
      let closed := (World.lifeCell computation).set .finished w
      match delegate? program body with
      | some inner => close program depth inner closed
      | none => closed
    | _ => w

/-- Closes what has been given up, as far as it bears on a computation. What a closed computation
has held can be lost by that, so it looks again until nothing is lost. -/
def settleIn (program : Program L) (computation : Nat) : (rounds : Nat) → World L → World L
  | 0, w => w
  | rounds + 1, w =>
    match lost program w (delegations program w computation) with
    | [] => w
    | lost =>
      settleIn program computation rounds
        (lost.foldl (fun w owner => close program w.computations.next owner w) w)

/-- Closes a computation if it has lost an owner. -/
def settle (program : Program L) (computation : Nat) : Exec (World L) Unit :=
  Exec.modify fun w =>
    if (owners program w computation).isEmpty then w
    else settleIn program computation (w.computations.next + 1) w

/-- Ends the owners that were given up while the computation was running. They cannot close it. -/
def release (program : Program L) (computation : Nat) : Exec (World L) Unit :=
  Exec.modify fun w =>
    (lost program w (owners program w computation)).foldl
      (fun w owner => (World.lifeCell owner).set .finished w) w

/-! ## Notes -/

/-- Notes that a computation owns the one that it is delegated to. -/
def noteOwner (program : Program L) (owner : Nat) : Exec (World L) Unit :=
  Exec.modify fun w =>
    match of? program w owner with
    | none => w
    | some computation =>
      match w.computations.get? computation with
      | some c =>
        if c.delegators.contains owner then w
        else
          let delegators := owner :: owners program w computation
          { w with computations := w.computations.set computation { c with delegators } }
      | none => w

/-- Notes that an error has ended a body. The error keeps what the body held. -/
def noteEnd (e : Error) (body : Option (Body L)) : Exec (World L) Unit :=
  Exec.modify fun w => { w with ended := w.ended.add e.id body.toList }

/-- Runs a drive of a computation and notes it for as long as it lasts. -/
def inDrive (computation : Nat) (drive : Exec (World L) Step) : Exec (World L) (Result Step) := do
  let before ← Exec.read fun w => w.drives
  Exec.modify fun w => { w with drives := computation :: before }
  let ended ← drive.attempt
  Exec.modify fun w => { w with drives := before }
  return ended

/-- Attends to a drive of a computation: before it, the computation can turn out to be closed, and
after it, there can be owners to be ended, a new owner or an error to be noted. -/
def attend (program : Program L) (computation : Nat) (drive : Exec (World L) Step) :
    Exec (World L) Step := do
  settle program computation
  let body ← Exec.read fun w => ((World.lifeCell computation).get w).waiting?
  let ended ← inDrive computation drive
  release program computation
  match ended with
  | .ok step =>
    noteOwner program computation
    return step
  | .raised e =>
    noteEnd e body
    Exec.raise e
  | .exhausted => Exec.exhausted

end Delegation

end OneShot
