import OneShot.Value.Key

/-!
# Ordered maps

A list of keys with their contents, in the order in which the keys were first put.
-/

namespace OneShot

/-- A map from values that keeps the order of first insertion. -/
abbrev Assoc (α : Type) := List (Value × α)

namespace Assoc

variable {α β : Type}

/-- The entry under a key. Its own key can be spelled in another way. -/
def entry? (m : Assoc α) (key : Value) : Option (Value × α) := m.find? fun e => e.1.same key

def get? (m : Assoc α) (key : Value) : Option α := (m.entry? key).map Prod.snd

def contains (m : Assoc α) (key : Value) : Bool := (m.get? key).isSome

/-- A key that is there keeps its place and its first spelling. A new key goes to the end. -/
def put : Assoc α → Value → α → Assoc α
  | [], key, a => [(key, a)]
  | (k, b) :: rest, key, a =>
    if k.same key then (k, a) :: rest else (k, b) :: put rest key a

def keys (m : Assoc α) : List Value := m.map Prod.fst

/-- Puts the entries of `other` one after the other. -/
def update (m other : Assoc α) : Assoc α :=
  other.foldl (fun acc entry => put acc entry.1 entry.2) m

/-- The same keys in the same order, with new contents. -/
def mapContents (f : α → β) (m : Assoc α) : Assoc β := m.map fun entry => (entry.1, f entry.2)

end Assoc

end OneShot
