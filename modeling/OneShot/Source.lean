import OneShot.World.Mapping

/-!
# Sources

A source is a computation or something that gives one when it is called without arguments.
-/

namespace OneShot.World

variable {L : Language}

/-- A fresh computation as a value. -/
def spawn (name : String) (body : Body L) : Exec (World L) Value :=
  Exec.alter (addComputation name body)

/-- The computation that a source stands for. -/
def toComputation (host : Host (World L)) (source : Value) : Exec (World L) Nat := do
  match source.computation? with
  | some id => return id
  | none =>
    if source.isCallable then
      let produced ← host.call source []
      match produced.computation? with
      | some id => return id
      | none => fail (.notProduced produced.typeName)
    else fail (.notConvertible source.typeName)

/-- Drives a computation by one step and gives the step as a value. -/
def advance (host : Host (World L)) (v answer : Value) : Exec (World L) Value := do
  match v.computation? with
  | none => fail (.notDrivable v.typeName)
  | some id =>
    match ← host.drive id answer with
    | .suspended action => Exec.alter (addObject (.suspended · action))
    | .completed result => Exec.alter (addObject (.completed · result))

/-- The attributes that tell whether a computation is running, suspended, or has a body left. -/
def runningProbe : String := "gi_running"

def suspendedProbe : String := "gi_suspended"

def bodyProbe : String := "gi_frame"

/-- Whether a value has an attribute that counts as given. -/
def probe (v : Value) (name : String) : Exec (World L) Bool := do
  let found ← access v name
  Exec.read fun w => w.isGiven found

/-- Whether a computation has never been driven. Any other value is asked for the attributes of
one. -/
def isFresh (v : Value) : Exec (World L) Bool := do
  match v.computation? with
  | some id => Exec.read fun w => ((lifeCell id).get w).isFresh
  | none =>
    if ← probe v runningProbe then return false
    else if ← probe v suspendedProbe then return false
    else return !((← access v bodyProbe) matches .nil)

end OneShot.World
