import OneShot.Text.Quoted
import OneShot.Value.Identity
import OneShot.World

/-!
# The text of a value

A value has two texts. `inspect` shows what it is made of, with texts in quotes. `display` is
for reading: a text stands for itself, an action shows its two names, an error its text.
-/

namespace OneShot.World

variable {L : Language}

def commaSeparated (parts : List String) : String := ", ".intercalate parts

/-- A list in round brackets. A single item is followed by a comma. -/
def roundBrackets : List String → String
  | [part] => "(" ++ part ++ ",)"
  | parts => "(" ++ commaSeparated parts ++ ")"

def curlyBrackets (entries : List (String × String)) : String :=
  "\x7b" ++ commaSeparated (entries.map fun e => e.1 ++ ": " ++ e.2) ++ "\x7d"

/-- A record with the texts of its fields. -/
def record (name : String) (fields : List (String × String)) : String :=
  name ++ "(" ++ commaSeparated (fields.map fun f => f.1 ++ "=" ++ f.2) ++ ")"

/-- The text of a class. A class of the runtime has no home. -/
def classText (c : SpecClass) : String :=
  "<class '" ++ (if c.home.isEmpty then c.name else c.home ++ "." ++ c.name) ++ "'>"

mutual

/-- The text that shows what a value is made of. `inside` holds the objects whose text is being
written, so that one that contains itself is not written again. -/
def inspectWithin (w : World L) : (depth : Nat) → (inside : List Value) → Value → String
  | 0, _, _ => "..."
  | depth + 1, inside, v =>
    let part := inspectWithin w depth inside
    let name := displayWithin w depth inside
    let guarded (again : String) (write : (Value → String) → String) :=
      if inside.any v.identical then again else write (inspectWithin w depth (v :: inside))
    let entries (part : Value → String) (m : Assoc Value) :=
      curlyBrackets (m.map fun e => (part e.1, part e.2))
    match v with
    | .nil => "None"
    | .bool b => if b then "True" else "False"
    | .int n => toString n
    | .str s => Text.quoted s
    | .tuple _ [] => "()"
    | .tuple _ items => guarded "(...)" fun part => roundBrackets (items.map part)
    | .list id => guarded "[...]" fun part => "[" ++ commaSeparated ((w.list id).map part) ++ "]"
    | .dict id | .instanceOf _ _ _ _ (some id) =>
      guarded "\x7b...\x7d" fun part => entries part (w.dict id)
    | .frozen _ m =>
      "frozendict.frozendict(" ++ guarded "\x7b...\x7d" (fun part => entries part m) ++ ")"
    | .action _ effect operation tuple parameters =>
      guarded "..." fun part =>
        record "Action" [("effect_name", part effect), ("constructor_name", part operation),
          ("parameters", part (.tuple tuple parameters))]
    | .suspended _ action => guarded "..." fun part => record "Suspended" [("action", part action)]
    | .completed _ result => guarded "..." fun part => record "Completed" [("result", part result)]
    | .resume _ value => guarded "..." fun part => record "Resume" [("value", part value)]
    | .abort _ value => guarded "..." fun part => record "Abort" [("value", part value)]
    | .report id =>
      match w.reports.get? id with
      | some r =>
        guarded "..." fun part =>
          record "RunResult" [("value", part r.value), ("error", part r.error)]
      | none => "RunResult()"
    | .error e => e.kind.label ++ "(" ++ (e.argument.map part).getD "" ++ ")"
    | .creator _ effect operation => "ActionCreator(" ++ name effect ++ "." ++ name operation ++ ")"
    | .effect id =>
      match w.effects.get? id with
      | some n =>
        "Effect(" ++ Text.quoted n.name ++ ", operations=["
          ++ commaSeparated (n.operations.map part) ++ "])"
      | none => "Effect()"
    | .tactics id =>
      match w.tokens.get? id with
      | some t =>
        let state := match t.outcome with
          | none => "pending"
          | some _ => t.outcomeValue.typeName
        "HandleTactics(" ++ name t.action ++ ", " ++ state ++ ")"
      | none => "HandleTactics()"
    | .spec id => ((w.classes.get? id).map classText).getD ""
    | other => "<" ++ other.typeName ++ ">"

/-- The text for reading. -/
def displayWithin (w : World L) : (depth : Nat) → (inside : List Value) → Value → String
  | 0, _, _ => "..."
  | depth + 1, inside, v =>
    match v with
    | .str s => s
    | .action _ effect operation _ _ =>
      displayWithin w depth inside effect ++ "." ++ displayWithin w depth inside operation
    | .error e =>
      match e.argument with
      | none => ""
      | some a =>
        if e.kind.quotesArgument then inspectWithin w depth inside a
        else displayWithin w depth inside a
    | v => inspectWithin w depth inside v

end

/-- How deep the text of a value goes before it is cut off. -/
def textDepth : Nat := 100000

def inspect (w : World L) (v : Value) : String := inspectWithin w textDepth [] v

def display (w : World L) (v : Value) : String := displayWithin w textDepth [] v

end OneShot.World
