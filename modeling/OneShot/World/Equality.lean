import OneShot.Value.Identity
import OneShot.World

/-!
# Equality of values

Lists, mappings and reports are equal if their contents are. Mappings are compared without
their order. Parts that are one and the same object are not looked into, so a value that contains
itself is equal to itself. Everything else is equal as keys are.
-/

namespace OneShot.World

variable {L : Language}

/-- Compares two lists of parts from the front and stops at the first difference. -/
def equalParts (part : Value → Value → Option Bool) : List Value → List Value → Option Bool
  | [], [] => some true
  | x :: xs, y :: ys => do if ← part x y then equalParts part xs ys else return false
  | _, _ => some false

/-- Whether the second mapping has every entry of the first. -/
def equalEntries (part : Value → Value → Option Bool) :
    Assoc Value → Assoc Value → Option Bool
  | [], _ => some true
  | (key, v) :: rest, other =>
    match other.get? key with
    | none => some false
    | some u => do if ← part v u then equalEntries part rest other else return false

/-- Equality of values down to a depth. Nothing is known about values that nest deeper. -/
def equalWithin (w : World L) : (depth : Nat) → Value → Value → Option Bool
  | 0, _, _ => none
  | depth + 1, a, b =>
    let part (x y : Value) := if x.identical y then some true else equalWithin w depth x y
    let all (xs ys : List Value) :=
      if xs.length = ys.length then equalParts part xs ys else some false
    match a, b with
    | .tuple _ xs, .tuple _ ys => all xs ys
    | .list i, .list j => if i = j then some true else all (w.list i) (w.list j)
    | .action _ e o t ps, .action _ e' o' t' ps' => all [e, o, .tuple t ps] [e', o', .tuple t' ps']
    | .suspended _ x, .suspended _ y | .completed _ x, .completed _ y | .resume _ x, .resume _ y
    | .abort _ x, .abort _ y => all [x] [y]
    | .report i, .report j =>
      match w.reports.get? i, w.reports.get? j with
      | some r, some s => if i = j then some true else all [r.value, r.error] [s.value, s.error]
      | _, _ => some false
    | a, b =>
      match w.mapping? a, w.mapping? b with
      | some xs, some ys =>
        if a.identical b then some true
        else if xs.length = ys.length then equalEntries part xs ys
        else some false
      | _, _ => some (a.same b)

/-- How deep values are compared. -/
def equalDepth : Nat := 5000

def equal? (w : World L) (a b : Value) : Option Bool := equalWithin w equalDepth a b

end OneShot.World
