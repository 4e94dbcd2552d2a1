import OneShot.Datum
import OneShot.Dispatch
import OneShot.Multimap
import OneShot.Namespace
import OneShot.Pool
import OneShot.Spec
import OneShot.Tracing

/-!
# The world

Everything that has an identity and can change. User code comes in through a language: the
runtime stores its functions, its running tasks and its memory and does not look inside.
-/

namespace OneShot

/-- What user code is made of. -/
structure Language where
  /-- What a function value stands for. -/
  Function : Type
  /-- The state of a running user computation. -/
  Task : Type
  Memory : Type

/-- The body of a computation. -/
inductive Body (L : Language) where
  | task (state : L.Task)
  /-- Completes at once. -/
  | pure (result : Value)
  /-- Suspends once with the action and completes with the answer. -/
  | perform (action : Value) (asked : Bool)
  | handling (source : Nat) (table : Table) (phase : Dispatch.Phase)
  | tracing (source : Nat) (label limit : Value) (phase : Tracing.Phase)
  /-- Asks the surroundings and resumes the tactics with the answer. -/
  | askOuter (question tactics : Value) (asked : Bool)

/-- The computation that the body of a handling or a tracer drives. -/
def Body.source? {L : Language} : Body L → Option Nat
  | .handling source .. | .tracing source .. => some source
  | _ => none

structure Computation (L : Language) where
  name : String
  life : Life (Body L)
  /-- The computations that have this one as their source. -/
  wrappers : List Nat := []
  /-- The computations that have suspended while they were delegated to this one. They need not be
  so any more. -/
  delegators : List Nat := []
  /-- Whether it has been handed on as a value. Then it is never given up. -/
  kept : Bool := false

/-- The record of a finished run. A program can set further fields. -/
structure Report where
  value : Value
  error : Value
  extra : List (String × Value) := []

/-- What a session can see happening. -/
inductive Event where
  | emitted (value : Datum)
  | logged (text : String)
  | traced (label : Datum) (text : String)

structure World (L : Language) where
  lists : Pool (List Value) := {}
  dicts : Pool (Assoc Value) := {}
  tokens : Pool Token := {}
  reports : Pool Report := {}
  effects : Pool Namespace := {}
  classes : Pool SpecClass := {}
  functions : Pool L.Function := {}
  computations : Pool (Computation L) := {}
  memory : L.Memory
  /-- The next identity of an object that cannot change. -/
  nextId : Nat := 0
  /-- The bodies that each error has ended. It keeps what they hold. -/
  ended : Multimap (Body L) := {}
  /-- The drives in progress, the innermost first. -/
  drives : List Nat := []
  /-- The errors and records that have been handed on as values. They are never given up. -/
  stored : List Value := []
  /-- The values that evaluations in progress hold, the innermost first. -/
  pending : List Value := []
  /-- The values that evaluations held when an error ended them. -/
  carried : Multimap Value := {}
  /-- Whether notes are kept as events. -/
  logging : Bool := false
  /-- The events so far, the last one first. -/
  events : List Event := []

namespace World

variable {L : Language}

/-- The identity of the base specification. -/
def baseSpec : Nat := 0

/-- The identity of the class of plain mappings. -/
def baseMapping : Nat := 1

def list (w : World L) (id : Nat) : List Value := (w.lists.get? id).getD []

def dict (w : World L) (id : Nat) : Assoc Value := (w.dicts.get? id).getD []

/-- The entries of a mapping, whether it can change or not. An object of a class of mappings gives
them as a plain one does. -/
def mapping? (w : World L) : Value → Option (Assoc Value)
  | .dict id => some (w.dict id)
  | .frozen _ entries => some entries
  | .instanceOf _ _ _ _ entries => entries.map w.dict
  | _ => none

def addList (items : List Value) (w : World L) : Value × World L :=
  let (id, lists) := w.lists.add items
  (.list id, { w with lists })

def addDict (entries : Assoc Value) (w : World L) : Value × World L :=
  let (id, dicts) := w.dicts.add entries
  (.dict id, { w with dicts })

def addReport (r : Report) (w : World L) : Value × World L :=
  let (id, reports) := w.reports.add r
  (.report id, { w with reports })

def addToken (action : Value) (w : World L) : Nat × World L :=
  let (id, tokens) := w.tokens.add (.pending action w.nextId)
  (id, { w with tokens, nextId := w.nextId + 1 })

def addEffect (n : Namespace) (w : World L) : Value × World L :=
  let (id, effects) := w.effects.add n
  (.effect id, { w with effects })

def addClass (c : SpecClass) (w : World L) : Value × World L :=
  let (id, classes) := w.classes.add { c with linearisation := w.classes.next :: c.linearisation }
  (.spec id, { w with classes })

def addFunction (f : L.Function) (w : World L) : Value × World L :=
  let (id, functions) := w.functions.add f
  (.function id, { w with functions })

/-- Notes that a computation is the source of another one. -/
def addWrapper (source wrapper : Nat) (w : World L) : World L :=
  match w.computations.get? source with
  | some c =>
    let wrappers := wrapper :: c.wrappers
    { w with computations := w.computations.set source { c with wrappers } }
  | none => w

/-- A fresh computation with the given body. -/
def addComputation (name : String) (body : Body L) (w : World L) : Value × World L :=
  let (id, computations) := w.computations.add { name, life := .fresh body }
  let after := { w with computations }
  match body.source? with
  | some source => (.computation id, after.addWrapper source id)
  | none => (.computation id, after)

/-- Gives out `count` identities and returns the first. -/
def takeIds (count : Nat) (w : World L) : Nat × World L :=
  (w.nextId, { w with nextId := w.nextId + count })

/-- A new object that cannot change. -/
def addObject (make : Nat → Value) (w : World L) : Value × World L :=
  let (id, after) := w.takeIds 1
  (make id, after)

/-- A new action. Its parameters become a new tuple. -/
def addAction (effect operation : Value) (parameters : List Value) (w : World L) :
    Value × World L :=
  let (id, after) := w.takeIds 2
  (.action id effect operation (id + 1) parameters, after)

/-- The classes along the linearisation of a class, with their identities. -/
def linearisation (w : World L) (id : Nat) : List (Nat × SpecClass) :=
  match w.classes.get? id with
  | some c => c.linearisation.filterMap fun base => (w.classes.get? base).map fun c => (base, c)
  | none => []

def className (w : World L) (id : Nat) : String := ((w.classes.get? id).map (·.name)).getD ""

/-- The place where a computation keeps its life. -/
def lifeCell (id : Nat) : Cell (World L) (Life (Body L)) where
  get w :=
    match w.computations.get? id with
    | some c => c.life
    | none => .finished
  set life w :=
    match w.computations.get? id with
    | some c => { w with computations := w.computations.set id { c with life } }
    | none => w

end World

end OneShot
