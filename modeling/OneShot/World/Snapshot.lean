import OneShot.Datum
import OneShot.World.Text

/-!
# Snapshots

The contents of a value at this moment. A value that contains itself has no end, so it has no
snapshot.
-/

namespace OneShot.World

variable {L : Language}

def errorText (w : World L) (e : Error) : Option String :=
  if e.hasText then some (w.display (.error e)) else none

/-- The datum of a value, if the value does not nest deeper than `depth`. -/
def snapshotWithin (w : World L) : (depth : Nat) → Value → Option Datum
  | 0, _ => none
  | depth + 1, v =>
    let part := snapshotWithin w depth
    let parts (items : List Value) := items.mapM part
    let entries (m : Assoc Value) := m.mapM fun e => do return (← part e.1, ← part e.2)
    match v with
    | .nil => some .nil
    | .bool b => some (.bool b)
    | .int n => some (.int n)
    | .str s => some (.str s)
    | .tuple _ items => do return .tuple (← parts items)
    | .list id => do return .list (← parts (w.list id))
    | .dict id | .instanceOf _ _ _ _ (some id) => do return .dict (← entries (w.dict id))
    | .frozen _ m => do return .frozen (← entries m)
    | .action _ effect operation _ parameters => do
      return .action (← part effect) (← part operation) (← parts parameters)
    | .suspended _ action => do return .suspended (← part action)
    | .completed _ result => do return .completed (← part result)
    | .resume _ value => do return .resume (← part value)
    | .abort _ value => do return .abort (← part value)
    | .report id =>
      match w.reports.get? id with
      | some r => do return .report (← part r.value) (← part r.error)
      | none => some (.other v.typeName)
    | .error e => some (.error e.kind.label (w.errorText e))
    | .creator _ effect operation => do return .creator (← part effect) (← part operation)
    | .effect id =>
      match w.effects.get? id with
      | some n => do return .effect n.name (← parts n.operations) n.isOpen
      | none => some (.other v.typeName)
    | .tactics id =>
      match w.tokens.get? id with
      | some t => do return .tactics (w.display t.action) (← part t.outcomeValue)
      | none => some (.other v.typeName)
    | .spec id => some (.spec (w.className id))
    | v => some (.other v.typeName)

/-- How deep a value can nest in an answer. -/
def snapshotDepth : Nat := 5000

def snapshot? (w : World L) (v : Value) : Option Datum := snapshotWithin w snapshotDepth v

end OneShot.World
