import OneShot.World.Sequence

/-!
# Values as mappings

Which entries a new mapping gets when it is made of a value. A value that can tell its keys is
asked for the content of each. Any other value is gone through, and each of its items stands for
one entry.
-/

namespace OneShot.World

variable {L : Language}

/-- The entry that an item stands for. The item must have two items of its own. -/
def pairOf (host : Host (World L)) (bound position : Nat) (v : Value) :
    Exec (World L) (Value × Value) := do
  let parts ← Exec.rescue (iterate host bound v) fun e =>
    if e.kind = .type then refuse (.notPair position) else Exec.raise e
  match parts with
  | [key, content] =>
    requireKey key
    return (key, content)
  | _ => refuse (.pairLength position parts.length)

/-- The entries that the items of a value stand for. An item is looked at before the next one is
taken. -/
def entriesOfItems (host : Host (World L)) (bound : Nat) (v : Value) :
    Exec (World L) (Assoc Value) := do
  let add (state : Nat × Assoc Value) (item : Value) : Exec (World L) (Nat × Assoc Value) := do
    let (key, content) ← pairOf host bound state.1 item
    return (state.1 + 1, state.2.put key content)
  return (← (← cursor v).fold host add bound (0, [])).2

/-- The method that tells the keys of a value. -/
def keysMethod : String := "keys"

/-- The entries of a value that tells its keys. -/
def entriesOfKeys (host : Host (World L)) (bound : Nat) (v method : Value) :
    Exec (World L) (Assoc Value) := do
  let keys ← host.call method []
  let start ← Exec.rescue (cursor keys) fun _ =>
    refuse (.keysNotIterable v.typeName keys.typeName)
  let add (entries : Assoc Value) (key : Value) : Exec (World L) (Assoc Value) := do
    let content ← item v key
    requireKey key
    return entries.put key content
  (← start.collect host bound).foldlM add []

/-- The entries that a mapping made of the value gets. -/
def entriesOf (host : Host (World L)) (bound : Nat) (v : Value) :
    Exec (World L) (Assoc Value) := do
  match ← Exec.read fun w => w.mapping? v with
  | some entries => return entries
  | none =>
    match ← access? v keysMethod with
    | some method => entriesOfKeys host bound v method
    | none => entriesOfItems host bound v

/-- The two parts of an item that must have exactly two. It is not asked for more than three. -/
def unpackPair (host : Host (World L)) (v : Value) : Exec (World L) (Value × Value) := do
  let start ← Exec.rescue (cursor v) fun _ => refuse (.notParts v.typeName)
  match ← start.next host with
  | none => refuse (.tooFewParts 0)
  | some (first, left) =>
    match ← left.next host with
    | none => refuse (.tooFewParts 1)
    | some (second, left) =>
      match ← left.next host with
      | none => return (first, second)
      | some _ => refuse .tooManyParts

/-- Whether a value counts as given. -/
def isGiven (w : World L) : Value → Bool
  | .nil => false
  | .bool b => b
  | .int n => n != 0
  | .str s => !s.isEmpty
  | .tuple _ items => !items.isEmpty
  | .list id => !(w.list id).isEmpty
  | .dict id | .instanceOf _ _ _ _ (some id) => !(w.dict id).isEmpty
  | .frozen _ entries => !entries.isEmpty
  | _ => true

end OneShot.World
