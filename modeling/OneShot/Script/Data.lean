import OneShot.Script.Memory

/-!
# Plain data in scripts
-/

namespace OneShot.Script

open World

mutual

/-- Makes a literal. -/
def build : Literal → ScriptExec Value
  | .nil => pure .nil
  | .bool b => pure (.bool b)
  | .int n => pure (.int n)
  | .str s => pure (.str s)
  | .list items => do Exec.alter (addList (← buildAll items))
  | .tuple items => do newTuple (← buildAll items)
  | .dict entries => do Exec.alter (addDict (← buildEntries entries))
  | .action effect operation parameters => do
    Exec.alter (addAction (← build effect) (← build operation) (← buildAll parameters))

def buildAll : List Literal → ScriptExec (List Value)
  | [] => pure []
  | l :: rest => do
    let v ← build l
    return v :: (← buildAll rest)

def buildEntries : List (Literal × Literal) → ScriptExec (Assoc Value)
  | [] => pure []
  | (k, l) :: rest => do
    let key ← build k
    let v ← build l
    requireKey key
    let after ← buildEntries rest
    return Assoc.update [(key, v)] after

end

/-- Pairs up keys and contents. A last key without a content is left out. -/
def pairUp : List Value → List (Value × Value)
  | k :: v :: rest => (k, v) :: pairUp rest
  | _ => []

def makeDict (arguments : List Value) : ScriptExec Value := do
  let entries := pairUp arguments
  for (key, _) in entries do
    requireKey key
  Exec.alter (addDict (Assoc.update [] entries))

/-- The method that puts a value at the end. -/
def appendMethod : String := "append"

/-- Puts a value at the end of a list. Anything else is asked for its own method. -/
def appendTo (host : Host (World language)) (target v : Value) : ScriptExec Value := do
  match target with
  | .list id =>
    World.append id v
    return .nil
  | target => invoke host.call target appendMethod [v]

/-- The method that puts a value under a key. -/
def putMethod : String := "__setitem__"

/-- Puts a value into a mapping or a list. Anything else is asked for its own method. -/
def putInto (host : Host (World language)) (target key v : Value) : ScriptExec Value := do
  match target with
  | .dict id | .instanceOf _ _ _ _ (some id) =>
    World.store id key v
    return .nil
  | .list id =>
    let items ← Exec.read fun w => w.list id
    match key.number? with
    | none => refuse (.notPosition .list key.typeName)
    | some n =>
      match position? items.length n with
      | some i =>
        Exec.modify fun w => { w with lists := w.lists.set id (items.set i v) }
        return .nil
      | none => refuse .assignmentOutOfRange
  | .frozen .. => refuse (.notAssignable target.typeName)
  | target => invoke host.call target putMethod [key, v]

/-- Only a number that counts from the front is a position here. -/
def atPosition (items : List Value) (key : Value) : ScriptExec Value :=
  match key with
  | .int n =>
    match if 0 ≤ n then items[n.toNat]? else none with
    | some v => pure v
    | none => fault .outOfRange
  | _ => fault .outOfRange

/-- The item of a sequence at a position, or what a mapping holds under a key. -/
def index (v key : Value) : ScriptExec Value := do
  match v with
  | .tuple _ items => atPosition items key
  | .list id => atPosition (← Exec.read fun w => w.list id) key
  | v =>
    match ← Exec.read fun w => w.mapping? v with
    | some entries =>
      requireKey key
      match entries.get? key with
      | some found => return found
      | none => fault (.noKey key)
    | none => fault (.unsuited "index")

def length (v : Value) : ScriptExec Value := do
  match v with
  | .str s => return .int s.length
  | .tuple _ items => return .int items.length
  | .list id => return .int (← Exec.read fun w => w.list id).length
  | .dict id | .instanceOf _ _ _ _ (some id) =>
    return .int (← Exec.read fun w => w.dict id).length
  | _ => fault (.unsuited "len")

def add (a b : Value) : ScriptExec Value := do
  match a, b with
  | .int m, .int n => return .int (m + n)
  | .str s, .str t => return .str (s ++ t)
  | .list i, .list j =>
    let first ← Exec.read fun w => w.list i
    let second ← Exec.read fun w => w.list j
    Exec.alter (addList (first ++ second))
  | _, _ => fault (.unsuited "add")

/-- An operation on two whole numbers. -/
def arithmetic (name : String) (f : Int → Int → Value) (a b : Value) : ScriptExec Value :=
  match a, b with
  | .int m, .int n => pure (f m n)
  | _, _ => fault (.unsuited name)

def upper : Value → ScriptExec Value
  | .str s => pure (.str (s.map Char.toUpper))
  | _ => fault (.unsuited "upper")

def negate : Value → ScriptExec Value
  | .bool b => pure (.bool !b)
  | _ => fault .notCondition

/-- The public names of an effect, sorted. -/
def publicNames (v : Value) : ScriptExec Value := do
  match v with
  | .effect id =>
    let operations ← Exec.read fun w => ((w.effects.get? id).map (·.operations)).getD []
    match Namespace.names? operations with
    | some names =>
      let all := (Namespace.ownNames ++ names).eraseDups.filter SpecClass.isPublic
      Exec.alter (addList ((all.mergeSort fun a b => !(b < a)).map .str))
    | none => refuse .unsuited
  | _ => refuse .unsuited

end OneShot.Script
