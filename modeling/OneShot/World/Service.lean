import OneShot.Holding
import OneShot.World.Snapshot

/-!
# What the world offers to handling

Error objects get their text when they are made, so a later change of the values in it is not
seen. Notes become events if the session keeps them.
-/

namespace OneShot.World

variable {L : Language}

/-! ## Errors -/

/-- What an error's text is made of. -/
def argumentOf (w : World L) : Cause Value → Option Value
  | .made _ argument => argument
  | .refused refusal => refusal.text.bind text
  | .noEntry key => some key
  | .contract action reason =>
    text ("Fail to handle action '" ++ w.display action ++ "'\n" ++ w.display reason)
  | .unhandled action => text ("No handler for action '" ++ w.display action ++ "'")
  | .missingKey key =>
    text ("Environment key not found: " ++ w.inspect key
      ++ "\nHint: Provide this key via `reader_handlers(\x7b'" ++ w.display key ++ "': value\x7d)`")
  | .stepLimit limit => text ("traced computation exceeded max_steps (" ++ w.display limit ++ ")")
  | .notConvertible name => text ("Cannot convert " ++ name ++ " to an effectful computation")
  | .notProduced name => text ("Computation producer did not return a generator, got " ++ name)
  | .notDrivable name => text ("Cannot advance " ++ name ++ "; expected a generator")
  | .notTable name => text ("Handler table must be a mapping, got " ++ name)
  | .notEntries effect name =>
    text ("Handlers of effect " ++ w.inspect effect ++ " must be a mapping, got " ++ name)
  | .noTable first second =>
    text ("handle expects a computation and a handler table, got " ++ first ++ " and " ++ second)
  | .effectName name => text ("Effect name must be a non-empty string, got " ++ w.inspect name)
  | .effectSource source =>
    text ("create_effect expects an effect name or a Spec subclass, got " ++ w.inspect source)
  | .duplicate operation effect =>
    text ("Duplicate operation " ++ w.inspect operation ++ " in effect " ++ Text.quoted effect)
  | .undeclared operation => some operation
  | .noOperation effect operation declared =>
    text ("Effect " ++ Text.quoted effect ++ " has no operation " ++ Text.quoted operation
      ++ "; declared operations: "
      ++ (if (commaSeparated declared).isEmpty then "(none)" else commaSeparated declared))
  | .hiddenName name => text name
  | .notRaisable => text "exceptions must derive from BaseException"
where
  text (s : String) : Option Value := some (.str s)

/-- A new error object. -/
def mint (cause : Cause Value) : Exec (World L) Error :=
  Exec.alter fun w =>
    let (id, after) := w.takeIds 1
    (⟨id, cause, w.argumentOf cause⟩, after)

def fail {α : Type} (cause : Cause Value) : Exec (World L) α := do Exec.raise (← mint cause)

/-- Refuses an operation that the values do not have. -/
def refuse {α : Type} (refusal : Refusal) : Exec (World L) α := fail (.refused refusal)

/-- Raises a value. Only an error can be raised. The place that raises it holds it, and the error
holds the place, so neither goes away. -/
def raiseValue {α : Type} : Value → Exec (World L) α
  | .error e => do
    Exec.modify (keep (.error e))
    Exec.raise e
  | _ => fail .notRaisable

def ofExcept {α : Type} : Except (Cause Value) α → Exec (World L) α
  | .ok a => pure a
  | .error cause => fail cause

/-! ## Events -/

def eventOf (w : World L) : Note → Event
  | .forwarding a => .logged ("forwarding unhandled action " ++ w.display a)
  | .resolved a => .logged ("resolved value action " ++ w.display a)
  | .driving a => .logged ("driving handler body of " ++ w.display a)
  | .aborted a => .logged ("handling aborted at " ++ w.display a)
  | .resumed a => .logged ("resumed " ++ w.display a)
  | .traceSuspended label step a =>
    .traced (labelOf label) ("step " ++ toString step ++ ": suspended with " ++ w.display a)
  | .traceResumed label step v =>
    .traced (labelOf label) ("step " ++ toString step ++ ": resumed with " ++ w.inspect v)
  | .traceCompleted label steps r =>
    .traced (labelOf label)
      ("completed with " ++ w.inspect r ++ " after " ++ toString steps ++ " steps")
where
  labelOf (label : Value) : Datum := (w.snapshot? label).getD .nil

def addEvent (e : Event) (w : World L) : World L := { w with events := e :: w.events }

def note (n : Note) : Exec (World L) Unit :=
  Exec.modify fun w => if w.logging then w.addEvent (w.eventOf n) else w

/-- Makes a value visible as it is now. -/
def emit (v : Value) : Exec (World L) Unit := do
  match ← Exec.read fun w => w.snapshot? v with
  | some d => Exec.modify fun w => w.addEvent (.emitted d)
  | none => refuse .tooDeep

/-! ## Tokens -/

def issue (action : Value) : Exec (World L) Nat := Exec.alter (addToken action)

def outcome (id : Nat) : Exec (World L) (Option Outcome) :=
  Exec.read fun w => (w.tokens.get? id).bind (·.outcome)

/-- Records a decision in a token. A second decision is an error and changes nothing. -/
def settleToken (id : Nat) (o : Outcome) : Exec (World L) Unit := do
  match ← Exec.read fun w => w.tokens.get? id with
  | none => pure ()
  | some token =>
    match token.settle? o with
    | some settled => Exec.modify fun w => { w with tokens := w.tokens.set id settled }
    | none => fail (.contract token.action (.str Token.settledTwice))

end OneShot.World
