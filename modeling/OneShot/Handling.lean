import OneShot.Source
import OneShot.World.Membership

/-!
# Handling a computation with a table

Tables are read from mappings when handling begins.
-/

namespace OneShot.World

variable {L : Language}

/-! ## Tables -/

/-- Reads the entries of a table, effect by effect. -/
def readEntries : Assoc Value → Exec (World L) Table
  | [] => pure []
  | (effect, v) :: rest => do
    match ← Exec.read fun w => w.mapping? v with
    | some entries => return (effect, entries) :: (← readEntries rest)
    | none => fail (.notEntries effect v.typeName)

/-- A snapshot of a table. Both levels must be mappings. -/
def readTable (v : Value) : Exec (World L) Table := do
  match ← Exec.read fun w => w.mapping? v with
  | some entries => readEntries entries
  | none => fail (.notTable v.typeName)

/-- What a value gives as the entries of an effect. Pairs will do. -/
def readPart (host : Host (World L)) (bound : Nat) (effect v : Value) :
    Exec (World L) (Value × Assoc Value) := do
  requireKey effect
  return (effect, ← entriesOf host bound v)

/-- Reads the parts of a mapping that can change on the way. New entries are an error then. -/
def readLive (host : Host (World L)) (bound : Nat) (dict size : Nat) :
    (positions : List Nat) → Exec (World L) Table
  | [] => pure []
  | i :: positions => do
    match (← Exec.read fun w => w.dict dict)[i]? with
    | none => pure []
    | some (effect, v) =>
      let part ← readPart host bound effect v
      if (← Exec.read fun w => w.dict dict).length = size then
        return part :: (← readLive host bound dict size positions)
      else refuse .changedSize

/-- The method that tells the entries of a value. -/
def itemsMethod : String := "items"

/-- Reads a table from a mapping or from anything else that can tell its entries. -/
def readAny (host : Host (World L)) (bound : Nat) (v : Value) : Exec (World L) Table := do
  match v with
  | .dict id | .instanceOf _ _ _ _ (some id) =>
    let size ← Exec.read fun w => (w.dict id).length
    readLive host bound id size (List.range size)
  | .frozen _ entries => entries.mapM fun (effect, v) => readPart host bound effect v
  | v =>
    let items ← invoke host.call v itemsMethod []
    let add (parts : Table) (item : Value) : Exec (World L) Table := do
      let (effect, entries) ← unpackPair host item
      return parts ++ [← readPart host bound effect entries]
    (← cursor items).fold host add bound []

/-- Makes the mappings of a table. None of them existed before. -/
def writeTable (t : Table) : Exec (World L) Value := do
  Exec.alter (addDict (← t.mapM fun (effect, entries) => do
    return (effect, ← Exec.alter (addDict entries))))

/-- A mapping that nobody can change. One that is so already stays the same object. -/
def freezeEntries (v : Value) : Exec (World L) Value := do
  match v with
  | .frozen .. => return v
  | v =>
    let entries ← Exec.read fun w => (w.mapping? v).getD []
    Exec.alter (addObject (.frozen · entries))

/-- A table that nobody can change. -/
def freeze (v : Value) : Exec (World L) Value := do
  let _ ← readTable v
  let entries ← Exec.read fun w => (w.mapping? v).getD []
  let frozen ← entries.mapM fun (effect, v) => do return (effect, ← freezeEntries v)
  Exec.alter (addObject (.frozen · frozen))

/-- A table that claims one operation. -/
def singleTable (effect operation : String) (entry : Value) : Table :=
  [(.str effect, [(.str operation, entry)])]

/-- Merges tables into new mappings. For the same operation the last table wins. -/
def merge (host : Host (World L)) (bound : Nat) (tables : List Value) :
    Exec (World L) Value := do
  writeTable (Table.merge (← tables.mapM (readAny host bound)))

/-- The method that gives what a value holds for a key. -/
def getMethod : String := "get"

/-- What a table has for an effect, or nothing. -/
def entriesFor (host : Host (World L)) (table effect : Value) : Exec (World L) Value := do
  match ← Exec.read fun w => w.mapping? table with
  | some entries =>
    requireKey effect
    return (entries.get? effect).getD .nil
  | none => invoke host.call table getMethod [effect]

/-- Looks up the entry that a table has for a value, and tells whether there is one. -/
def lookup (host : Host (World L)) (bound : Nat) (table action : Value) :
    Exec (World L) Value := do
  match action with
  | .action _ effect operation _ _ =>
    match ← entriesFor host table effect with
    | .nil => absent
    | entries =>
      if ← contains host bound operation entries then
        newTuple [.bool true, ← item entries operation]
      else absent
  | _ => absent
where
  absent : Exec (World L) Value := newTuple [.bool false, .nil]

/-! ## Handling -/

/-- Handles a source with the table that `read` gives. -/
def handleWith (host : Host (World L)) (source : Value) (read : Exec (World L) Table) :
    Exec (World L) Value := do
  let computation ← toComputation host source
  let table ← read
  spawn "_handle" (.handling computation table .start)

def isMapping (v : Value) : Exec (World L) Bool := Exec.read fun w => (w.mapping? v).isSome

/-- Handles one of the two values with the other. The second is taken for the table if it is a
mapping, else the first. The source is made a computation before the table is read. -/
def handle (host : Host (World L)) (first second : Value) : Exec (World L) Value := do
  if ← isMapping second then handleWith host first (readTable second)
  else if ← isMapping first then handleWith host second (readTable first)
  else fail (.noTable first.typeName second.typeName)

/-- Handles one operation of a source. -/
def handleOperation (host : Host (World L)) (source : Value) (effect operation : String)
    (entry : Native Value) : Exec (World L) Value := do
  let id ← Exec.alter (takeIds 1)
  handleWith host source (pure (singleTable effect operation (.native id entry)))

end OneShot.World
