import OneShot.Assoc

/-!
# Effects as namespaces

An effect gives a creator for each of its operations. A closed effect knows all of them from
the start. An open effect takes up every operation it is asked for.
-/

namespace OneShot

/-- An effect: its name, and the identity of the creator of each operation. -/
structure Namespace where
  name : String
  creators : Assoc Nat
  isOpen : Bool

namespace Namespace

def operations (n : Namespace) : List Value := n.creators.keys

def contains (n : Namespace) (operation : Value) : Bool := n.creators.contains operation

/-- The names that an effect answers to itself, so that they are no operations. -/
def ownNames : List String := ["derive", "effect_name", "is_open", "operations"]

def creatorValue (n : Namespace) (operation : Value) (id : Nat) : Value :=
  .creator id (.str n.name) operation

/-- An effect that has no operations yet. -/
def start (name : Value) : Except (Cause Value) Namespace :=
  match name with
  | .str s => if s.isEmpty then .error (.effectName name) else .ok ⟨s, [], false⟩
  | _ => .error (.effectName name)

/-- Adds an operation. Its creator gets the identity `id`. -/
def add (n : Namespace) (id : Nat) (operation : Value) : Except (Cause Value) Namespace :=
  if !operation.isKey then .error (.refused operation.keyRefusal)
  else if n.contains operation then .error (.duplicate operation n.name)
  else .ok { n with creators := n.creators.put operation id }

/-- Adds the operations in order. Their creators get the identities from `next` on. -/
def declare (n : Namespace) (next : Nat) : List Value → Except (Cause Value) Namespace
  | [] => .ok n
  | operation :: rest => do declare (← n.add next operation) (next + 1) rest

/-- Decides that all operations have been added. An effect without operations is open. -/
def finish (n : Namespace) : Namespace := { n with isOpen := n.creators.isEmpty }

/-- A new effect. -/
def create (name : Value) (next : Nat) (operations : List Value) :
    Except (Cause Value) Namespace := do
  return (← (← start name).declare next operations).finish

/-- The same operations under another name, with creators of their own. -/
def derive (n : Namespace) (name : Value) (next : Nat) : Except (Cause Value) Namespace :=
  (create name next n.operations).map fun derived => { derived with isOpen := n.isOpen }

/-- The creator of an operation, and the effect after the access. A creator goes by the name that
it was made for. An open effect makes a new one with the identity `next`. -/
def item (n : Namespace) (next : Nat) (operation : Value) :
    Except (Cause Value) (Value × Namespace) :=
  if !operation.isKey then .error (.refused operation.keyRefusal)
  else match n.creators.entry? operation with
    | some (name, id) => .ok (n.creatorValue name id, n)
    | none =>
      if n.isOpen then
        .ok (n.creatorValue operation next,
          { n with creators := n.creators.put operation next })
      else .error (.undeclared operation)

/-- The texts of values, if all of them are texts. -/
def names? : List Value → Option (List String)
  | [] => some []
  | .str s :: rest => (names? rest).map (s :: ·)
  | _ :: _ => none

/-- Why operations cannot be listed: the first of them that is no text. -/
def listingRefusal (operations : List Value) : Refusal :=
  let texts := operations.takeWhile fun o => o matches .str _
  .notText texts.length ((operations[texts.length]?).getD .nil).typeName

/-- The access to an operation by a public name. -/
def named (n : Namespace) (next : Nat) (operation : String) :
    Except (Cause Value) (Value × Namespace) :=
  if operation.startsWith "_" then .error (.hiddenName operation)
  else match n.item next (.str operation) with
    | .ok found => .ok found
    | .error _ =>
      match names? n.operations with
      | some declared => .error (.noOperation n.name operation declared)
      | none => .error (.refused (listingRefusal n.operations))

end Namespace

end OneShot
