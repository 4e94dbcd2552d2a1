import OneShot.World.Access

/-!
# Values as sequences

Which items a value has when it is gone through. Going through a computation drives it, so nothing
is taken from it before it is needed.
-/

namespace OneShot.World

variable {L : Language}

/-- What is left of a value that is being gone through. A list or a mapping is looked at anew for
each item, so a change of it is seen. -/
inductive Cursor where
  | rest (items : List Value)
  | positions (list next : Nat)
  | keys (dict size next : Nat)
  | driven (computation : Nat)
  /-- An effect is asked for the operations named by the numbers from `next` on. -/
  | numbered (effect : Value) (next : Nat)
  | machine

/-- The event that tells that a machine has been driven. A machine has no end of items. -/
def machineDriven : Value := .str "machine driven"

/-- The start of a value. A creator has one item, its action without parameters. -/
def cursor (v : Value) : Exec (World L) Cursor := do
  match v with
  | .tuple _ items => return .rest items
  | .list id => return .positions id 0
  | .str s => return .rest (characters s)
  | .dict id | .instanceOf _ _ _ _ (some id) =>
    return .keys id (← Exec.read fun w => (w.dict id).length) 0
  | .frozen _ entries => return .rest (Assoc.keys entries)
  | .computation id => return .driven id
  | .creator _ effect operation => return .rest [← Exec.alter (addAction effect operation [])]
  | .effect _ => return .numbered v 0
  | .machine _ => return .machine
  | v => refuse (.notIterable v.typeName)

namespace Cursor

/-- The next item, with what is left after it. -/
def next (host : Host (World L)) : Cursor → Exec (World L) (Option (Value × Cursor))
  | .rest [] => return none
  | .rest (v :: items) => return some (v, .rest items)
  | .positions list i => do
    return (← Exec.read fun w => (w.list list)[i]?).map fun v => (v, .positions list (i + 1))
  | .keys dict size i => do
    let entries ← Exec.read fun w => w.dict dict
    if entries.length = size then
      return entries[i]?.map fun entry => (entry.1, .keys dict size (i + 1))
    else refuse .changedSize
  | .driven computation => do
    match ← host.drive computation .nil with
    | .completed _ => return none
    | .suspended v => return some (v, .driven computation)
  | .numbered effect i => do
    return some (← item effect (.int i), .numbered effect (i + 1))
  | .machine => do
    emit machineDriven
    return some (.nil, .machine)

/-- Goes through the items that are left and changes a state with each of them. An error of a
change leaves the later items where they are. -/
def fold {σ : Type} (host : Host (World L)) (change : σ → Value → Exec (World L) σ) :
    (bound : Nat) → Cursor → σ → Exec (World L) σ
  | 0, _, _ => Exec.exhausted
  | bound + 1, c, state => do
    match ← c.next host with
    | none => return state
    | some (v, left) => fold host change bound left (← change state v)

/-- All items that are left. -/
def collect (host : Host (World L)) (bound : Nat) (c : Cursor) : Exec (World L) (List Value) := do
  return (← c.fold host (fun items v => return v :: items) bound []).reverse

end Cursor

/-- The items of a value, one after the other. -/
def iterate (host : Host (World L)) (bound : Nat) (v : Value) : Exec (World L) (List Value) := do
  (← cursor v).collect host bound

end OneShot.World
