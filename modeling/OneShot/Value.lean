import OneShot.Error.Refusal

/-!
# Values and errors

What a computation can yield, what a handler can answer, and what can go wrong.
A value that can change holds only an identity. The world maps identities to contents.
-/

namespace OneShot

/-! ## Errors -/

/-- Why an error arose. -/
inductive Cause (V : Type) where
  /-- A program made the error. -/
  | made (kind : ErrorKind) (argument : Option V)
  /-- The values do not have the operation. -/
  | refused (refusal : Refusal)
  /-- A mapping holds nothing under the key. -/
  | noEntry (key : V)
  /-- The handler of `action` broke the rule of one tactic for one action. -/
  | contract (action : V) (reason : V)
  | unhandled (action : V)
  | missingKey (key : V)
  | stepLimit (limit : V)
  | notConvertible (typeName : String)
  | notProduced (typeName : String)
  | notDrivable (typeName : String)
  | notTable (typeName : String)
  | notEntries (effect : V) (typeName : String)
  | noTable (first second : String)
  | effectName (name : V)
  | effectSource (source : V)
  | duplicate (operation : V) (effect : String)
  | undeclared (operation : V)
  | noOperation (effect operation : String) (declared : List String)
  | hiddenName (name : String)
  /-- A value was to be raised that is no error. -/
  | notRaisable

/-- The kind under which a cause is reported. -/
def Cause.kind {V : Type} : Cause V → ErrorKind
  | .made kind _ => kind
  | .refused refusal => refusal.kind
  | .noEntry _ => .key
  | .contract .. => .contract
  | .unhandled _ => .unhandled
  | .missingKey _ => .missingKey
  | .stepLimit _ => .runtime
  | .notConvertible _ | .notProduced _ | .notDrivable _ | .notTable _ | .notEntries ..
  | .noTable .. | .effectName _ | .effectSource _ | .notRaisable => .type
  | .duplicate .. => .value
  | .undeclared _ => .key
  | .noOperation .. | .hiddenName _ => .noAttribute

/-- An error object: its identity, its cause, and the one argument its text is made of. -/
structure ErrorOf (V : Type) where
  id : Nat
  cause : Cause V
  argument : Option V

namespace ErrorOf

variable {V : Type}

def kind (e : ErrorOf V) : ErrorKind := e.cause.kind

/-- Whether a report gives the text of the error. That of a refusal is not given. -/
def hasText (e : ErrorOf V) : Bool :=
  match e.cause with
  | .refused _ | .noEntry _ => false
  | _ => true

end ErrorOf

/-! ## Values -/

/-- A function of the standard handlers, with what it has captured. -/
inductive Native (V : Type) where
  | stateGet (store : Nat)
  | statePut (store : Nat)
  | stateModify (store : Nat)
  | readerAsk (environment : List (V × V))
  | localAsk (overrides : List (V × V))
  | writerTell (messages : Nat)
  | writerListen (messages : Nat)
  | throwAbort (recover : V)
  | throwRaise

/-- What a method does once it is called on its receiver. -/
inductive Method where
  | resume | abort | derive | makeAction | unwrap
  /-- A function from the body of the class with this identity. -/
  | member (owner : Nat) (name : String)
  deriving DecidableEq

/-- The values. Each one that has parts is an object of its own, even if another one has the same
parts: `id` tells them apart. -/
inductive Value where
  | nil
  | bool (b : Bool)
  | int (n : Int)
  | str (s : String)
  | tuple (id : Nat) (items : List Value)
  | list (id : Nat)
  | dict (id : Nat)
  /-- A mapping that nobody can change. -/
  | frozen (id : Nat) (entries : List (Value × Value))
  /-- The parameters of an action are a tuple, so they have an identity too. -/
  | action (id : Nat) (effect operation : Value) (tuple : Nat) (parameters : List Value)
  | suspended (id : Nat) (action : Value)
  | completed (id : Nat) (result : Value)
  | resume (id : Nat) (value : Value)
  | abort (id : Nat) (value : Value)
  /-- The record of a finished run. -/
  | report (id : Nat)
  | error (e : ErrorOf Value)
  /-- Makes the actions of one operation. -/
  | creator (id : Nat) (effect operation : Value)
  | effect (id : Nat)
  | tactics (id : Nat)
  | computation (id : Nat)
  | function (id : Nat)
  | native (id : Nat) (f : Native Value)
  | method (receiver : Value) (m : Method)
  | spec (id : Nat)
  /-- A function from the body of a class, without a receiver. -/
  | member (owner : Nat) (name : String)
  /-- A computed attribute that is looked at in its class. -/
  | property (owner : Nat) (name : String)
  /-- An object made by calling a class. Some classes make their objects callable, and those of a
  class of mappings have entries. -/
  | instanceOf (id cls : Nat) (className : String) (callable : Bool) (entries : Option Nat)
  /-- An object that looks like a computation and is none. -/
  | machine (id : Nat)

instance : Inhabited Value := ⟨.nil⟩

abbrev Error := ErrorOf Value

namespace Value

/-- The name of a value's type, as error texts give it. -/
def typeName : Value → String
  | .nil => "NoneType"
  | .bool _ => "bool"
  | .int _ => "int"
  | .str _ => "str"
  | .tuple .. => "tuple"
  | .list _ => "list"
  | .dict _ => "dict"
  | .frozen .. => "frozendict"
  | .action .. => "Action"
  | .suspended .. => "Suspended"
  | .completed .. => "Completed"
  | .resume .. => "Resume"
  | .abort .. => "Abort"
  | .report _ => "RunResult"
  | .error e => e.kind.label
  | .creator .. => "ActionCreator"
  | .effect _ => "Effect"
  | .tactics _ => "HandleTactics"
  | .computation _ => "generator"
  | .function _ | .native .. | .member .. => "function"
  | .method .. => "method"
  | .spec _ => "type"
  | .property .. => "property"
  | .instanceOf _ _ className _ _ => className
  | .machine _ => "Machine"

/-- Whether the value can be called. An entry of a handler table that can be called is a handler. -/
def isCallable : Value → Bool
  | .function _ | .native .. | .method .. | .spec _ | .creator .. | .member .. => true
  | .instanceOf _ _ _ callable _ => callable
  | _ => false

/-- Whether the value is a plain function. Objects bind the functions of their classes. -/
def isFunction : Value → Bool
  | .function _ | .native .. | .member .. => true
  | _ => false

def isAction : Value → Bool
  | .action .. => true
  | _ => false

/-- Only a computation of the runtime itself can be driven. -/
def computation? : Value → Option Nat
  | .computation id => some id
  | _ => none

/-- The number that a value counts as. The two truth values are 0 and 1. -/
def number? : Value → Option Int
  | .int n => some n
  | .bool b => some (if b then 1 else 0)
  | _ => none

end Value

end OneShot
