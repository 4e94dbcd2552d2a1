import OneShot.World.Equality
import OneShot.World.Sequence

/-!
# Membership

Whether a value is in a container. A mapping or an effect contains its keys, a text its parts, and
everything else the items that it has when it is gone through.
-/

namespace OneShot.World

variable {L : Language}

/-- Whether two values are equal. Values that nest too deeply cannot be compared. -/
def equal (a b : Value) : Exec (World L) Bool := do
  match ← Exec.read fun w => w.equal? a b with
  | some answer => return answer
  | none => refuse .tooDeep

/-- Whether an item is the value that is looked for. -/
def isItem (v item : Value) : Exec (World L) Bool :=
  if item.identical v then pure true else equal item v

/-- Goes through the items up to the first one that is the value. -/
def search (host : Host (World L)) (v : Value) : (bound : Nat) → Cursor → Exec (World L) Bool
  | 0, _ => Exec.exhausted
  | bound + 1, c => do
    match ← c.next host with
    | none => return false
    | some (item, left) => if ← isItem v item then return true else search host v bound left

/-- Whether a text occurs in another one. -/
def occurs (part : List Char) : List Char → Bool
  | [] => part.isEmpty
  | c :: rest => part.isPrefixOf (c :: rest) || occurs part rest

def contains (host : Host (World L)) (bound : Nat) (v container : Value) :
    Exec (World L) Bool := do
  match container, v with
  | .effect id, v =>
    requireKey v
    Exec.read fun w => ((w.effects.get? id).map (·.contains v)).getD false
  | .dict id, v | .instanceOf _ _ _ _ (some id), v =>
    requireKey v
    Exec.read fun w => Assoc.contains (w.dict id) v
  | .frozen _ entries, v =>
    requireKey v
    return Assoc.contains entries v
  | .str s, .str part => return occurs part.toList s.toList
  | .str _, v => refuse (.notTextPart v.typeName)
  | container, v =>
    match ← attemptCursor container with
    | some start => search host v bound start
    | none => refuse (.notContainer container.typeName)
where
  attemptCursor (container : Value) : Exec (World L) (Option Cursor) :=
    Exec.rescue (do return some (← cursor container)) fun _ => return none

end OneShot.World
