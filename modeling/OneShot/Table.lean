import OneShot.Assoc

/-!
# Handler tables

A table maps effects to operations to entries. A table in use is a snapshot, so it is a plain
value here and no later change of the mapping it was made from can reach it.
-/

namespace OneShot

abbrev Table := Assoc (Assoc Value)

namespace Table

/-- Puts the entries of one effect over those that the table has for it. -/
def extend (t : Table) (effect : Value) (entries : Assoc Value) : Table :=
  t.put effect (((t.get? effect).getD []).update entries)

/-- Puts all entries of `other` over those of the table. -/
def overlay (t other : Table) : Table :=
  other.foldl (fun acc entry => extend acc entry.1 entry.2) t

/-- One table of many. For the same operation the last table wins. -/
def merge (tables : List Table) : Table := tables.foldl overlay []

end Table

/-- What a table says to a value that a computation has yielded. -/
inductive Claim where
  | unclaimed
  | entry (value : Value)
  /-- A name of the action cannot be looked up. -/
  | notKey (name : Value)

namespace Table

/-- The table claims only actions. The effect is looked up first, then the operation. -/
def claim (t : Table) : Value → Claim
  | .action _ effect operation _ _ =>
    if effect.isKey then
      match t.get? effect with
      | none => .unclaimed
      | some entries =>
        if operation.isKey then
          match entries.get? operation with
          | none => .unclaimed
          | some value => .entry value
        else .notKey operation
    else .notKey effect
  | _ => .unclaimed

end Table

end OneShot
