import OneShot.World.Access

/-!
# State

Keyed state that a computation reads and writes. The handlers work on a live mapping.
-/

namespace OneShot.World

variable {L : Language}

/-- What a mapping holds under a key, or nothing. -/
def fetch (dict : Nat) (key : Value) : Exec (World L) Value := do
  requireKey key
  Exec.read fun w => ((w.dict dict).get? key).getD .nil

/-- Puts a content under a key of a mapping. -/
def store (dict : Nat) (key content : Value) : Exec (World L) Unit := do
  requireKey key
  Exec.modify fun w => { w with dicts := w.dicts.set dict ((w.dict dict).put key content) }

namespace State

/-- Answers what the store holds. The method of the tactics is looked up first. -/
def get (host : Host (World L)) (dict : Nat) (key tactics : Value) : Exec (World L) Unit := do
  let resume ← access tactics "resume"
  let _ ← host.call resume [← fetch dict key]

def put (host : Host (World L)) (dict : Nat) (key content tactics : Value) :
    Exec (World L) Unit := do
  store dict key content
  host.settle tactics (.resume .nil)

/-- Stores what the function makes of the current content, and answers it. -/
def modify (host : Host (World L)) (dict : Nat) (key function tactics : Value) :
    Exec (World L) Unit := do
  let new ← host.call function [← fetch dict key]
  store dict key new
  host.settle tactics (.resume new)

end State

end OneShot.World
