import OneShot.Delegation
import OneShot.Effects
import OneShot.Running
import OneShot.Standard.Failure
import OneShot.Standard.Handlers
import OneShot.Standard.Reader
import OneShot.Standard.State
import OneShot.Standard.Writer

/-!
# Calls and drives

Driving a computation may call handlers, and a handler may drive computations. `serve` answers
both kinds of request. One number bounds how deep they nest, another one how long a loop runs.
-/

namespace OneShot

namespace World

variable {L : Language}

/-! ## Calls -/

/-- Runs for the effect on the world alone. -/
def quietly {α : Type} (x : Exec (World L) α) : Exec (World L) Value := do
  let _ ← x
  return .nil

def callNative (host : Host (World L)) (f : Native Value) (arguments : List Value) :
    Exec (World L) Value :=
  match f, arguments with
  | .stateGet store, [key, tactics] => quietly (State.get host store key tactics)
  | .statePut store, [key, content, tactics] => quietly (State.put host store key content tactics)
  | .stateModify store, [key, function, tactics] =>
    quietly (State.modify host store key function tactics)
  | .readerAsk environment, [key, tactics] => quietly (Reader.ask host environment key tactics)
  | .localAsk overrides, [key, tactics] => do
    if ← Reader.askLocal host overrides key tactics then return .nil
    else
      let question ← Exec.alter (addAction Reader.effectName Reader.askName [key])
      spawn "_ask_outer" (.askOuter question tactics false)
  | .writerTell messages, [message, tactics] => quietly (Writer.tell host messages message tactics)
  | .writerListen messages, [tactics] => quietly (Writer.listen host messages tactics)
  | .throwAbort recover, [e, tactics] => quietly (Failure.recoverFrom host recover e tactics)
  | .throwRaise, [e, _] => raiseValue e
  | _, _ => refuse .unsuited

/-- Calls a function from the body of a class, with the argument that it is bound to among the
others. The ones that are written there do nothing. -/
def callMember (call : Value → List Value → Exec (World L) Value) (owner : Nat) (name : String)
    (arguments : List Value) : Exec (World L) Value := do
  match ← Exec.read fun w => w.member? owner name with
  | some (_, .constant f) => call f arguments
  | some (_, .method parameters) => silent parameters
  | some (_, .staticMethod) => silent 0
  | _ => silent 1
where
  silent (parameters : Nat) : Exec (World L) Value :=
    if arguments.length = parameters then return .nil else refuse .unsuited

def callMethod (receiver : Value) (m : Method) (arguments : List Value) : Exec (World L) Value :=
  match m, receiver, arguments with
  | .resume, .tactics id, [] => quietly (settleToken id (.resume .nil))
  | .resume, .tactics id, [v] => quietly (settleToken id (.resume v))
  | .abort, .tactics id, [] => quietly (settleToken id (.abort .nil))
  | .abort, .tactics id, [v] => quietly (settleToken id (.abort v))
  | .derive, .effect id, [name] => deriveFrom id name
  | .makeAction, .creator _ effect operation, parameters =>
    Exec.alter (addAction effect operation parameters)
  | .unwrap, .report id, [] => do
    match ← Exec.read fun w => w.reports.get? id with
    | some r => unwrap r
    | none => refuse .unsuited
  | _, _, _ => refuse .unsuited

/-- Calls an object of a class through the function that its class has for that. -/
def callInstance (call : Value → List Value → Exec (World L) Value) (object : Value)
    (arguments : List Value) : Exec (World L) Value :=
  invoke call object callAttribute arguments

/-- Makes an object of a class. Only a mapping can be given something, its entries. -/
def makeObject (host : Host (World L)) (bound : Nat) (cls : Nat) (arguments : List Value) :
    Exec (World L) Value := do
  match arguments, ← Exec.read fun w => w.isMappingClass cls with
  | [], _ => Exec.alter (addInstance cls [])
  | [v], true => Exec.alter (addInstance cls (← entriesOf host bound v))
  | vs, true => do refuse (.oneArgument (← Exec.read fun w => w.className cls) vs.length)
  | _, false => do refuse (.noArguments (← Exec.read fun w => w.className cls))

def callValue (program : Program L) (host : Host (World L)) (bound : Nat) (f : Value)
    (arguments : List Value) : Exec (World L) Value :=
  match f, arguments with
  | .function id, arguments => do
    match ← Exec.read fun w => w.functions.get? id with
    | some code => program.call host bound code arguments
    | none => refuse .unsuited
  | .native _ f, arguments => callNative host f arguments
  | .method receiver (.member owner name), arguments =>
    callMember host.call owner name (receiver :: arguments)
  | .method receiver m, arguments => callMethod receiver m arguments
  | .spec cls, arguments => makeObject host bound cls arguments
  | .member owner name, arguments => callMember host.call owner name arguments
  | .instanceOf _ _ _ true _, arguments => callInstance host.call f arguments
  | .creator _ effect operation, arguments => do
    let action ← Exec.alter (addAction effect operation arguments)
    spawn "__call__" (.perform action false)
  | f, _ => refuse (.notCallable f.typeName)

/-! ## Drives -/

/-- One move of the body of a computation. -/
def moveBody (program : Program L) (host : Host (World L)) (bound : Nat) :
    Body L → Value → Exec (World L) (Move (Body L))
  | .task state, v => do return (← program.advance host bound state v).map .task
  | .pure result, _ => return .complete result
  | .perform action false, _ => return .suspend action (.perform action true)
  | .perform _ true, v => return .complete v
  | .handling source table phase, v => do
    let move ← Dispatch.advance host table (host.drive source) bound phase v
    return move.map (.handling source table)
  | .tracing source label limit phase, v => do
    let move ← Tracing.advance host label limit (host.drive source) phase v
    return move.map (.tracing source label limit)
  | .askOuter question tactics asked, v => do
    return (← Reader.askOuter host question tactics asked v).map (.askOuter question tactics)

/-! ## Requests -/

/-- What can be asked of the kernel. -/
inductive Request where
  | call (f : Value) (arguments : List Value)
  | drive (computation : Nat) (v : Value)

/-- The type of the answer to a request. -/
abbrev Request.Reply : Request → Type
  | .call .. => Value
  | .drive .. => Step

/-- Answers a request with a host for everything that it leads to. -/
def answer (program : Program L) (host : Host (World L)) (bound : Nat) :
    (request : Request) → Exec (World L) request.Reply
  | .call f arguments => callValue program host bound f arguments
  | .drive computation v =>
    Delegation.attend program computation
      (Life.drive mint (lifeCell computation) (moveBody program host bound) v)

/-- Answers requests that nest up to the given depth, with loops of at most `bound` rounds. -/
def serve (program : Program L) (bound : Nat) : (depth : Nat) → (request : Request) →
    Exec (World L) request.Reply
  | 0, _ => Exec.exhausted
  | depth + 1, request =>
    let below := World.host
      (fun computation v => serve program bound depth (.drive computation v))
      (fun f arguments => serve program bound depth (.call f arguments))
    answer program below bound request

/-- The services of a world in which calls and drives nest up to the given depth. -/
def kernel (program : Program L) (bound depth : Nat) : Host (World L) :=
  World.host (fun computation v => serve program bound depth (.drive computation v))
    (fun f arguments => serve program bound depth (.call f arguments))

end World

end OneShot
