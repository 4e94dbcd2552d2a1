import OneShot.World.Member
import OneShot.World.Service

/-!
# Access to the parts of a value

Attributes, items and methods. Only effects answer to names that they do not have yet.
-/

namespace OneShot.World

variable {L : Language}

/-! ## Effects -/

/-- Keeps a changed effect. -/
def setEffect (id : Nat) (n : Namespace) (w : World L) : World L :=
  { w with effects := w.effects.set id n }

/-- Asks an effect for a creator with a function that may add one to it. -/
def creatorFrom (id : Nat)
    (ask : Namespace → Nat → Except (Cause Value) (Value × Namespace)) :
    Exec (World L) Value := do
  match ← Exec.read fun w => w.effects.get? id with
  | none => refuse .unsuited
  | some n =>
    let next ← Exec.alter (takeIds 1)
    let (creator, after) ← ofExcept (ask n next)
    Exec.modify (setEffect id after)
    return creator

/-- A new tuple. -/
def newTuple (items : List Value) : Exec (World L) Value := Exec.alter (addObject (.tuple · items))

def effectAttribute (id : Nat) (name : String) : Exec (World L) Value := do
  match ← Exec.read fun w => w.effects.get? id with
  | none => refuse .unsuited
  | some n =>
    match name with
    | "effect_name" => return .str n.name
    | "operations" => newTuple n.operations
    | "is_open" => return .bool n.isOpen
    | "derive" => return .method (.effect id) .derive
    | name => creatorFrom id fun n next => n.named next name

/-! ## Attributes -/

/-- The two attributes of a record of a run that are computed from its error. -/
def reportFlag? (r : Report) : String → Option Bool
  | "is_ok" => some (r.error matches .nil)
  | "is_error" => some !(r.error matches .nil)
  | _ => none

/-- A field of a record of a run. What a program has set stands before the method. -/
def reportAttribute? (v : Value) (r : Report) (name : String) : Option Value :=
  match reportFlag? r name, name with
  | some flag, _ => some (.bool flag)
  | none, "value" => some r.value
  | none, "error" => some r.error
  | none, name =>
    match r.extra.lookup name, name with
    | some found, _ => some found
    | none, "unwrap" => some (.method v .unwrap)
    | none, _ => none

/-- The attributes that are parts of the value or of its content. -/
def attribute? (w : World L) (v : Value) (name : String) : Option Value :=
  match v, name with
  | .action _ effect _ _ _, "effect_name" => some effect
  | .action _ _ operation _ _, "constructor_name" => some operation
  | .action _ _ _ tuple parameters, "parameters" => some (.tuple tuple parameters)
  | .suspended _ action, "action" => some action
  | .completed _ result, "result" => some result
  | .resume _ value, "value" | .abort _ value, "value" => some value
  | .creator _ effect _, "effect_name" => some effect
  | .creator _ _ operation, "constructor_name" => some operation
  | .creator .., "action" => some (.method v .makeAction)
  | .error e, name => errorAttribute e.cause name
  | .tactics id, name => (w.tokens.get? id).bind fun t => tokenAttribute t name
  | .report id, name => (w.reports.get? id).bind fun r => reportAttribute? v r name
  | .computation id, "__name__" => (w.computations.get? id).map fun c => .str c.name
  | .spec id, name => w.classAttribute? id name
  | .dict _, "__class__" => some (.spec baseMapping)
  | .instanceOf _ cls _ _ _, "__class__" => some (.spec cls)
  | .instanceOf _ cls _ _ _, name => w.instanceAttribute? v cls name
  | _, _ => none
where
  errorAttribute : Cause Value → String → Option Value
    | .contract action _, "action" => some action
    | .contract _ reason, "reason" => some reason
    | .unhandled action, "action" => some action
    | .missingKey key, "key" => some key
    | .made .stopIteration argument, "value" | .made .systemExit argument, "code" =>
      some (argument.getD .nil)
    | _, _ => none
  tokenAttribute (t : Token) : String → Option Value
    | "action" => some t.action
    | "outcome" => some t.outcomeValue
    | "settled" => some (.bool t.isSettled)
    | "resume" => some (.method v .resume)
    | "abort" => some (.method v .abort)
    | _ => none

/-- Why a value has no attribute of the name. -/
def missingAttribute (w : World L) (v : Value) (name : String) : Refusal :=
  match v with
  | .spec id => .noClassAttribute (w.className id) name
  | v => .noAttribute v.typeName name

/-- The attribute of a value with a name. The key of an action and the arguments of an error are a
new tuple each time. -/
def access (v : Value) (name : String) : Exec (World L) Value := do
  match v, name with
  | .effect id, name => effectAttribute id name
  | .action _ effect operation _ _, "key" => newTuple [effect, operation]
  | .error e, "args" => newTuple e.argument.toList
  | v, name =>
    match ← Exec.read fun w => w.attribute? v name with
    | some found => return found
    | none => refuse (← Exec.read fun w => w.missingAttribute v name)

/-- The attribute of a value, if it has one of that name. Asking an open effect for an operation
adds it. -/
def access? (v : Value) (name : String) : Exec (World L) (Option Value) :=
  Exec.rescue (do return some (← access v name)) fun e =>
    if e.kind.isAttribute then pure none else Exec.raise e

def hasAttribute (v : Value) (name : String) : Exec (World L) Bool := do
  return (← access? v name).isSome

/-! ## Setting fields -/

/-- Sets a field among those that a program has added. -/
def setExtra (name : String) (new : Value) : List (String × Value) → List (String × Value)
  | [] => [(name, new)]
  | (other, v) :: rest =>
    if other = name then (other, new) :: rest else (other, v) :: setExtra name new rest

/-- The record after a field is set. A computed attribute cannot be set. -/
def Report.assign? (r : Report) (name : String) (new : Value) : Option Report :=
  if (reportFlag? r name).isSome then none
  else match name with
    | "value" => some { r with value := new }
    | "error" => some { r with error := new }
    | name => some { r with extra := setExtra name new r.extra }

/-- Sets a field. Only the record of a run has fields that can be set. -/
def assign (v : Value) (name : String) (new : Value) : Exec (World L) Unit := do
  match v with
  | .action .. | .suspended .. | .completed .. | .resume .. | .abort .. =>
    refuse (.frozenField name)
  | .report id =>
    match ← Exec.read fun w => w.reports.get? id with
    | none => refuse .unsuited
    | some r =>
      match Report.assign? r name new with
      | some changed => Exec.modify fun w => { w with reports := w.reports.set id changed }
      | none => refuse (.fixedAttribute v.typeName name)
  | _ => refuse (.noAttribute v.typeName name)

/-! ## Items -/

/-- Refuses a value that cannot be a key. -/
def requireKey (key : Value) : Exec (World L) Unit :=
  if key.isKey then pure () else refuse key.keyRefusal

/-- The position that a number stands for. Negative numbers count from the end. -/
def position? (length : Nat) (n : Int) : Option Nat :=
  if 0 ≤ n ∧ n < length then some n.toNat
  else if n < 0 ∧ 0 ≤ n + length then some (n + length).toNat
  else none

/-- The item of a sequence at the position that a value stands for. -/
def itemAt (sequence : SequenceKind) (items : List Value) (key : Value) :
    Exec (World L) Value :=
  match key.number? with
  | none => refuse (.notPosition sequence key.typeName)
  | some n =>
    match (position? items.length n).bind fun i => items[i]? with
    | some v => pure v
    | none => refuse (.outOfRange sequence)

/-- The characters of a text, each as a text. -/
def characters (s : String) : List Value := s.toList.map fun c => .str (String.ofList [c])

/-- What a value holds under a key. -/
def item (v key : Value) : Exec (World L) Value := do
  match v with
  | .effect id => creatorFrom id fun n next => n.item next key
  | .list id => itemAt .list (← Exec.read fun w => w.list id) key
  | .tuple _ items => itemAt .tuple items key
  | .str s => itemAt .text (characters s) key
  | .spec id => refuse (.classNotIndexable (← Exec.read fun w => w.className id))
  | v =>
    match ← Exec.read fun w => w.mapping? v with
    | some entries =>
      requireKey key
      match entries.get? key with
      | some found => return found
      | none => fail (.noEntry key)
    | none => refuse (.notIndexable v.typeName)

/-- Calls a method of a value. -/
def invoke (call : Value → List Value → Exec (World L) Value) (v : Value) (name : String)
    (arguments : List Value) : Exec (World L) Value := do
  call (← access v name) arguments

/-! ## The host -/

/-- Takes a decision by calling a method of the value. -/
def settleThrough (call : Value → List Value → Exec (World L) Value) (tactics : Value)
    (o : Outcome) : Exec (World L) Unit := do
  let _ ← invoke call tactics o.methodName [o.value]

/-- The services of the world, given how computations are driven and values are called. -/
def host (drive : Nat → Value → Exec (World L) Step)
    (call : Value → List Value → Exec (World L) Value) : Host (World L) where
  drive := drive
  call := call
  issue := issue
  outcome := outcome
  settle := settleThrough call
  note := note
  mint := mint

end OneShot.World
