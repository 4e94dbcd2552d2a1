import OneShot.Holding
import OneShot.Kernel
import OneShot.Script.Syntax

/-!
# The memory of scripts

Variables live in frames. Each call has a frame of its own. A function sees the frame that it
was made in as it is when the function looks.
-/

namespace OneShot.Script

structure Frame where
  bindings : List (String × Value)
  parent : Option Nat

namespace Frame

/-- A later assignment takes the place of the first one. -/
def put (x : String) (v : Value) : List (String × Value) → List (String × Value)
  | [] => [(x, v)]
  | (y, u) :: rest => if y = x then (y, v) :: rest else (y, u) :: put x v rest

def assign (f : Frame) (x : String) (v : Value) : Frame :=
  { f with bindings := put x v f.bindings }

end Frame

/-- What a function value stands for: code and the frame that it was made in. With a task name,
calling it gives a computation. -/
structure Closure where
  parameters : Parameters
  body : List Stmt
  home : Nat
  task : Option String

/-- What is left to do inside a body. -/
inductive Work where
  | block (statements : List Stmt)
  /-- Rounds from `next` on, as long as it is below `count`. -/
  | loop (x : String) (next count : Nat) (body : List Stmt)
  /-- What comes before it in the list is guarded by the handler. -/
  | guard (x : String) (handler : List Stmt)
  /-- What comes before it in the list handles an error. -/
  | handling

/-- What the next value of a suspended body is for. -/
inductive Waiting where
  | start
  | answer (x : Option String)
  | delegate (x : Option String) (computation : Nat)

/-- A suspended body. -/
structure Task where
  frame : Nat
  waiting : Waiting
  work : List Work

/-- The frames of a script. Some are in use although no variable leads to them. -/
structure Memory where
  frames : Pool Frame := {}
  /-- The frames of the calls in progress, the innermost first. -/
  calls : List Nat := []
  /-- The frames that have caught an error. The error and its frame hold each other. -/
  catchers : List Nat := []
  /-- The frames of the calls that each error has ended. -/
  ended : Multimap Nat := {}

abbrev language : Language where
  Function := Closure
  Task := Task
  Memory := Memory

abbrev ScriptExec (α : Type) := Exec (World language) α

/-- The frame of the steps of a script. -/
def globalFrame : Nat := 0

/-- Finds a variable in a frame or the frames around it. -/
def find? (frames : Pool Frame) : (depth : Nat) → (frame : Nat) → String → Option Value
  | 0, _, _ => none
  | depth + 1, frame, x =>
    match frames.get? frame with
    | none => none
    | some f =>
      match f.bindings.lookup x with
      | some v => some v
      | none =>
        match f.parent with
        | some parent => find? frames depth parent x
        | none => none

/-- Assigns a variable and forgets its old value. -/
def overwrite (frame : Nat) (x : String) (v : Value) (w : World language) : World language :=
  match w.memory.frames.get? frame with
  | some f =>
    { w with memory := { w.memory with frames := w.memory.frames.set frame (f.assign x v) } }
  | none => w

/-- The value of a variable of a frame itself. -/
def bound (w : World language) (frame : Nat) (x : String) : Value :=
  ((w.memory.frames.get? frame).bind (·.bindings.lookup x)).getD .nil

/-- Assigns a variable. A frame of a call can be part of a cycle, so its values count as handed
on. -/
def setVariable (frame : Nat) (x : String) (v : Value) : ScriptExec Unit :=
  Exec.modify fun w =>
    let w := w.supersede (bound w frame x) v
    overwrite frame x v (if frame = globalFrame then w else w.keep v)

/-- Assigns if there is a name. -/
def bindVariable (frame : Nat) (x : Option String) (v : Value) : ScriptExec Unit :=
  match x with
  | some x => setVariable frame x v
  | none => pure ()

def newFrame (f : Frame) : ScriptExec Nat :=
  Exec.alter fun w =>
    let w := w.keepAll (f.bindings.map (·.2))
    let (id, frames) := w.memory.frames.add f
    (id, { w with memory := { w.memory with frames } })

/-- Runs a call in its frame. The frame is in use as long as the call lasts, and an error that
ends the call keeps it. -/
def inCall {α : Type} (frame : Nat) (x : ScriptExec α) : ScriptExec α := do
  let calls ← Exec.read fun w => w.memory.calls
  Exec.modify fun w => { w with memory := { w.memory with calls := frame :: calls } }
  let result ← x.attempt
  Exec.modify fun w => { w with memory := { w.memory with calls } }
  match result with
  | .ok a => return a
  | .raised e =>
    Exec.modify fun w =>
      { w with memory := { w.memory with ended := w.memory.ended.add e.id [frame] } }
    Exec.raise e
  | .exhausted => Exec.exhausted

/-- Binds an error that a frame has caught. It can take the place of an error that is still being
handled. That one is held. -/
def bindCaught (frame : Nat) (x : String) (e : Error) (whileHandling : Bool) : ScriptExec Unit :=
  Exec.modify fun w =>
    let w := if w.memory.calls.head? = some frame then w.keepCallers else w
    let w := overwrite frame x (.error e) (if whileHandling then w.keep (bound w frame x) else w)
    if w.memory.catchers.head? = some frame then w
    else { w with memory := { w.memory with catchers := frame :: w.memory.catchers } }

/-! ## Errors of the language itself -/

inductive Fault where
  | unbound (x : String)
  | arity (expected got : Nat)
  | arityAtLeast (expected got : Nat)
  | notCondition
  | notDelegable (typeName : String)
  | outOfRange
  | noKey (key : Value)
  /-- An operation on data that the values do not have. -/
  | unsuited (operation : String)

def Fault.kind : Fault → ErrorKind
  | .unbound _ => .name
  | .outOfRange => .index
  | .noKey _ => .key
  | _ => .type

def Fault.argument : Fault → Value
  | .unbound x => .str x
  | .arity expected got =>
    .str ("expected " ++ toString expected ++ " arguments, got " ++ toString got)
  | .arityAtLeast expected got =>
    .str ("expected at least " ++ toString expected ++ " arguments, got " ++ toString got)
  | .notCondition => .str "condition is not a bool"
  | .notDelegable typeName => .str ("do: not a computation: " ++ typeName)
  | .outOfRange => .str "index"
  | .noKey key => key
  | .unsuited operation => .str operation

def fault {α : Type} (f : Fault) : ScriptExec α :=
  World.fail (.made f.kind (some f.argument))

def lookup (frame : Nat) (x : String) : ScriptExec Value := do
  match ← Exec.read fun w => find? w.memory.frames w.memory.frames.next frame x with
  | some v => return v
  | none => fault (.unbound x)

end OneShot.Script
