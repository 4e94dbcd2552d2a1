import OneShot.Script.Eval

/-!
# Sessions

A session runs its steps in order in one global frame. A step that fails binds nothing, and
the session goes on. The answers are data, so a later step does not change them.
-/

namespace OneShot.Script

open World

/-- One step: an expression, and the name that its value is bound to. -/
structure Command where
  name : Option String
  expr : Expr

/-- How a step has ended. -/
inductive Ending where
  | value (d : Datum)
  | failed (kind : String) (text : Option String)
  /-- The step went over the bounds of the session. -/
  | unfinished

structure Answer where
  ending : Ending
  events : List Event

/-! ## The start -/

/-- The standard specifications with their effect names and methods. Each method comes with the
number of its parameters. -/
def standardSpecs : List (String × String × List (String × Nat)) :=
  [("State", "state", [("get", 2), ("put", 3), ("modify", 3)]), ("Reader", "reader", [("ask", 2)]),
    ("Writer", "writer", [("tell", 2), ("listen", 1)]), ("Failure", "failure", [("throw", 2)])]

/-- The place that the text of a standard specification names. -/
def standardHome (effectName : String) : String := "hyogwa.effects." ++ effectName

def declareStandard (name effectName : String) (methods : List (String × Nat)) :
    ScriptExec Unit := do
  let spec ← declareClass (name ++ "Spec") (standardHome effectName) (.str effectName) [baseSpec]
    (methods.map fun m => .attribute ⟨m.1, .method m.2⟩)
  setVariable globalFrame (name ++ "Spec") spec
  setVariable globalFrame name (← createEffect spec [])

def setUp : ScriptExec Unit := do
  let _ ← newFrame ⟨[], none⟩
  let base ← Exec.alter (addClass
    (SpecClass.setEffectName ⟨"Spec", "hyogwa.effect", true, [], [], []⟩ (.str "")))
  setVariable globalFrame "Spec" base
  let _ ← declareClass "dict" "" .nil [] []
  for (name, effectName, methods) in standardSpecs do
    declareStandard name effectName methods

/-- The world before the first step. -/
def start (logging : Bool) : World language :=
  { (setUp { memory := {} }).2 with logging }

/-! ## Steps -/

/-- The bound on the rounds of each loop. -/
def rounds : Nat := 1000000000

/-- The bound on the nesting of calls and drives. -/
def depth : Nat := 10000

def stepHost : Host (World language) := kernel program rounds depth

/-- Evaluates a step and binds its value. -/
def Command.run (c : Command) : ScriptExec Value := do
  let v ← c.expr.eval stepHost rounds globalFrame
  bindVariable globalFrame c.name v
  return v

def endingOf (w : World language) : Result Value → Ending
  | .ok v =>
    match w.snapshot? v with
    | some d => .value d
    | none => .failed ErrorKind.recursion.label none
  | .raised e => .failed e.kind.label (w.errorText e)
  | .exhausted => .unfinished

/-- Holds the value of a step until another step has one. -/
def holdValue (result : Result Value) (w : World language) : World language :=
  match result with
  | .ok v => { w with pending := [v] }
  | _ => w

/-- Runs a step. Its answer takes the events with it. -/
def Command.answer (c : Command) (w : World language) : Answer × World language :=
  let (result, after) := c.run w
  (⟨endingOf after result, after.events.reverse⟩, { holdValue result after with events := [] })

def answers : List Command → World language → List Answer
  | [], _ => []
  | c :: rest, w =>
    let (answer, after) := c.answer w
    answer :: answers rest after

/-- The answers of a session. -/
def session (logging : Bool) (steps : List Command) : List Answer := answers steps (start logging)

end OneShot.Script
