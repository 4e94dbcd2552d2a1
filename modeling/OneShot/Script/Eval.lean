import OneShot.Script.Apply
import OneShot.Script.Reach

/-!
# Evaluation

Expressions are evaluated at once. The body of a function or a computation is run piece by
piece, because it can be suspended between two statements: what is left to do is a list.
-/

namespace OneShot.Script

open World

/-! ## Expressions -/

mutual

def Expr.eval (host : Host (World language)) (bound frame : Nat) : Expr → ScriptExec Value
  | .literal l => build l
  | .var x => lookup frame x
  | .function parameters body => Exec.alter (addFunction ⟨parameters, body, frame, none⟩)
  | .computation name parameters body =>
    Exec.alter (addFunction ⟨parameters, body, frame, some name⟩)
  | .apply p arguments => do
    let vs ← Expr.evalAll host bound frame arguments
    Exec.modify (keepAll (p.kept vs))
    holding vs (p.apply host bound vs)

def Expr.evalAll (host : Host (World language)) (bound frame : Nat) :
    List Expr → ScriptExec (List Value)
  | [] => pure []
  | e :: rest => do
    let v ← e.eval host bound frame
    return v :: (← holding [v] (Expr.evalAll host bound frame rest))

end

/-! ## Statements -/

/-- Where a body goes after a piece of it. -/
inductive Flow where
  | go (work : List Work)
  | give (v : Value)
  | suspend (v : Value) (waiting : Waiting) (work : List Work)

/-- The nearest guard, and what is left to do after it. -/
def nearestGuard : List Work → Option (String × List Stmt × List Work)
  | [] => none
  | .guard x handler :: rest => some (x, handler, rest)
  | _ :: rest => nearestGuard rest

/-- Whether some of the work handles an error. -/
def isHandling : List Work → Bool
  | [] => false
  | .handling :: _ => true
  | _ :: rest => isHandling rest

/-- Lets the nearest guard in the work handle an error. -/
def protect (frame : Nat) (work : List Work) (x : ScriptExec Flow) : ScriptExec Flow :=
  Exec.rescue x fun e =>
    if e.kind.isCatchable then
      match nearestGuard work with
      | some (name, handler, rest) => do
        bindCaught frame name e (isHandling rest)
        return .go (.block handler :: .handling :: rest)
      | none => Exec.raise e
    else Exec.raise e

/-- Drives the computation that a body has been delegated to. -/
def driveDelegate (host : Host (World language)) (frame : Nat) (x : Option String)
    (computation : Nat) (v : Value) (work : List Work) : ScriptExec Flow := do
  match ← host.drive computation v with
  | .suspended action => return .suspend action (.delegate x computation) work
  | .completed result =>
    bindVariable frame x result
    return .go work

/-- The computation that a value delegates to. A creator gives one for its action without
parameters. -/
def delegateOf (v : Value) : ScriptExec Nat := do
  match v with
  | .computation id => return id
  | .creator _ effect operation =>
    let action ← Exec.alter (addAction effect operation [])
    let made ← spawn "__iter__" (.perform action false)
    match made.computation? with
    | some id => return id
    | none => refuse .unsuited
  | v => fault (.notDelegable v.typeName)

def roundsOf (v : Value) : ScriptExec Nat :=
  match v.number? with
  | some n => pure n.toNat
  | none => refuse (.notCount v.typeName)

/-- Runs one statement. The work is what comes after it. -/
def Stmt.exec (host : Host (World language)) (bound frame : Nat) (work : List Work) :
    Stmt → ScriptExec Flow
  | .assign x e => do
    setVariable frame x (← e.eval host bound frame)
    return .go work
  | .assignGlobal x e => do
    setVariable globalFrame x (← e.eval host bound frame)
    return .go work
  | .emit e => do
    World.emit (← e.eval host bound frame)
    return .go work
  | .eval e => do
    let _ ← e.eval host bound frame
    return .go work
  | .give e => do
    let v ← e.eval host bound frame
    Exec.modify (keep v)
    return .give v
  | .fail e => do
    let v ← e.eval host bound frame
    holding [v] (raiseValue v)
  | .branch condition yes no => do
    match ← condition.eval host bound frame with
    | .bool true => return .go (.block yes :: work)
    | .bool false => return .go (.block no :: work)
    | v => holding [v] (fault .notCondition)
  | .repeated x count body => do
    let v ← count.eval host bound frame
    let rounds ← holding [v] (roundsOf v)
    return .go (.loop x 0 rounds body :: work)
  | .guarded body x handler => return .go (.block body :: .guard x handler :: work)
  | .delegate x e => do
    let v ← e.eval host bound frame
    let computation ← holding [v] (delegateOf v)
    driveDelegate host frame x computation .nil work
  | .yield x e => do
    let v ← e.eval host bound frame
    Exec.modify (keep v)
    return .suspend v (.answer x) work

/-- Does the next piece of work. -/
def doNext (host : Host (World language)) (bound frame : Nat) : List Work → ScriptExec Flow
  | [] => pure (.give .nil)
  | .block [] :: rest => pure (.go rest)
  | .block (s :: after) :: rest =>
    protect frame rest (s.exec host bound frame (.block after :: rest))
  | .loop x next count body :: rest =>
    if next < count then do
      setVariable frame x (.int next)
      return .go (.block body :: .loop x (next + 1) count body :: rest)
    else pure (.go rest)
  | .guard _ _ :: rest | .handling :: rest => pure (.go rest)

/-- Goes on until the body gives a value or suspends. -/
def follow (host : Host (World language)) (bound frame : Nat) :
    (rounds : Nat) → Flow → ScriptExec (Move Task)
  | _, .give v => pure (.complete v)
  | _, .suspend v waiting work => pure (.suspend v ⟨frame, waiting, work⟩)
  | 0, .go _ => Exec.exhausted
  | rounds + 1, .go work => do
    follow host bound frame rounds (← doNext host bound frame work)

/-- Takes up a suspended body with the value it has waited for. -/
def takeUp (host : Host (World language)) (task : Task) (v : Value) : ScriptExec Flow :=
  match task.waiting with
  | .start => pure (.go task.work)
  | .answer x => do
    bindVariable task.frame x v
    return .go task.work
  | .delegate x computation =>
    protect task.frame task.work (driveDelegate host task.frame x computation v task.work)

def advanceTask (host : Host (World language)) (bound : Nat) (task : Task) (v : Value) :
    ScriptExec (Move Task) := do
  follow host bound task.frame bound (← takeUp host task v)

/-! ## Calls -/

/-- Binds names to values. Of two bindings of one name the later one stays. -/
def bindNames (names : List String) (vs : List Value) (bindings : List (String × Value)) :
    List (String × Value) :=
  (names.zip vs).foldl (fun bindings b => Frame.put b.1 b.2 bindings) bindings

/-- The bindings that the arguments of a call make. -/
def bindArguments (parameters : Parameters) (arguments : List Value) :
    ScriptExec (List (String × Value)) := do
  let needed := parameters.names.length
  let given := arguments.length
  match parameters.rest with
  | none =>
    if given = needed then return bindNames parameters.names arguments []
    else fault (.arity needed given)
  | some x =>
    if given < needed then fault (.arityAtLeast needed given)
    else
      let extra ← Exec.alter (addList (arguments.take (given - needed)))
      return bindNames parameters.names (arguments.drop (given - needed)) [(x, extra)]

/-- Calls a closure. A body that suspends belongs to a computation, so a plain function cannot. -/
def callClosure (host : Host (World language)) (bound : Nat) (f : Closure)
    (arguments : List Value) : ScriptExec Value := do
  let bindings ← bindArguments f.parameters arguments
  let frame ← newFrame ⟨bindings, some f.home⟩
  let task : Task := ⟨frame, .start, [.block f.body]⟩
  match f.task with
  | some name => spawn name (.task task)
  | none =>
    match ← inCall frame (advanceTask host bound task .nil) with
    | .complete v => return v
    | .suspend .. => refuse .unsuited

def program : Program language where
  call := callClosure
  advance := advanceTask
  delegate? := Task.delegate?
  names := names
  lost := lost

end OneShot.Script
