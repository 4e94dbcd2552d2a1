import Std.Data.HashSet
import OneShot.Holding
import OneShot.Script.Memory

/-!
# Reach

What a script still holds: everything that its variables, the calls and evaluations in progress,
the running computations and what has been handed on as a value lead to. The search goes from the
roots along the parts of each node and visits no node twice.
-/

namespace OneShot.Script

/-- The computation that a suspended body is delegated to. -/
def Task.delegate? (task : Task) : Option Nat :=
  match task.waiting with
  | .delegate _ computation => some computation
  | _ => none

/-- What the search passes through. -/
inductive Node where
  | value (v : Value)
  | frame (id : Nat)

namespace Node

/-- The mark of a node that must not be visited twice. Plain values need none. -/
def mark? : Node → Option (Nat × Nat)
  | .frame id => some (0, id)
  | .value v =>
    match v with
    | .tuple id _ | .frozen id _ | .action id .. | .suspended id _ | .completed id _
    | .resume id _ | .abort id _ | .creator id .. | .native id _ => some (1, id)
    | .error e => some (1, e.id)
    | .list id => some (2, id)
    | .dict id | .instanceOf _ _ _ _ (some id) => some (3, id)
    | .report id => some (4, id)
    | .tactics id => some (5, id)
    | .computation id => some (6, id)
    | .function id => some (7, id)
    | .effect id => some (8, id)
    | _ => none

def values (vs : List Value) : List Node := vs.map .value

/-- The keys and the contents of a mapping. -/
def entries (m : Assoc Value) : List Node := m.flatMap fun e => [.value e.1, .value e.2]

def ofNative : Native Value → List Node
  | .stateGet dict | .statePut dict | .stateModify dict => [.value (.dict dict)]
  | .readerAsk m | .localAsk m => entries m
  | .writerTell list | .writerListen list => [.value (.list list)]
  | .throwAbort recover => [.value recover]
  | .throwRaise => []

def ofCause : Cause Value → List Node
  | .contract action reason => values [action, reason]
  | .unhandled v | .missingKey v | .noEntry v | .undeclared v => [.value v]
  | _ => []

def ofPhase : Dispatch.Phase → List Node
  | .handlerBody computation action token =>
    values [.computation computation, action, .tactics token]
  | _ => []

/-- What the body of a computation holds. -/
def ofBody : Body language → List Node
  | .task task => .frame task.frame :: (task.delegate?.map fun c => .value (.computation c)).toList
  | .pure result => [.value result]
  | .perform action _ => [.value action]
  | .handling source table phase =>
    .value (.computation source) :: (table.flatMap fun e => .value e.1 :: entries e.2)
      ++ ofPhase phase
  | .tracing source label limit _ => values [.computation source, label, limit]
  | .askOuter question tactics _ => values [question, tactics]

/-- What a computation holds as long as it has not ended. -/
def ofLife (life : Life (Body language)) : List Node :=
  match life.body? with
  | some body => ofBody body
  | none => []

/-- What the bodies, the calls and the evaluations that an error has ended held. -/
def ofEnded (w : World language) (e : Error) : List Node :=
  (w.ended.all e.id).flatMap ofBody ++ (w.memory.ended.all e.id).map .frame
    ++ values (w.carried.all e.id)

/-- The nodes that a node leads to. -/
def parts (w : World language) : Node → List Node
  | .frame id =>
    match w.memory.frames.get? id with
    | some f => f.parent.toList.map .frame ++ f.bindings.map fun b => .value b.2
    | none => []
  | .value v =>
    match v with
    | .tuple _ items => values items
    | .action _ effect operation _ items => values (effect :: operation :: items)
    | .frozen _ m => entries m
    | .suspended _ a | .completed _ a | .resume _ a | .abort _ a => [.value a]
    | .creator _ effect operation => values [effect, operation]
    | .native _ f => ofNative f
    | .method receiver _ => [.value receiver]
    | .error e => e.argument.toList.map .value ++ ofCause e.cause ++ ofEnded w e
    | .list id => values (w.list id)
    | .dict id | .instanceOf _ _ _ _ (some id) => entries (w.dict id)
    | .report id =>
      match w.reports.get? id with
      | some r => values [r.value, r.error] ++ r.extra.map fun e => .value e.2
      | none => []
    | .tactics id =>
      match w.tokens.get? id with
      | some t => values [t.action, t.outcomeValue]
      | none => []
    | .computation id => ofLife ((World.lifeCell id).get w)
    | .function id => (w.functions.get? id).toList.map fun f => .frame f.home
    | .effect id => ((w.effects.get? id).map fun n => values n.operations).getD []
    | _ => []

end Node

/-- Whether a node is a collection. The search puts these off, because they can be large and seldom
lead to a computation that is in doubt. -/
def Node.isCollection : Node → Bool
  | .value v =>
    match v with
    | .tuple .. | .list _ | .dict _ | .instanceOf _ _ _ _ (some _) | .frozen .. => true
    | _ => false
  | .frame _ => false

/-- Takes a node off the computations that are still to be found. -/
def Node.strike (wanted : Std.HashSet Nat) : Node → Std.HashSet Nat
  | .value (.computation id) => wanted.erase id
  | _ => wanted

/-- What the search still has to look at. -/
structure Agenda where
  first : List Node := []
  collections : List Node := []

namespace Agenda

def add (a : Agenda) (nodes : List Node) : Agenda where
  first := nodes.filter (!·.isCollection) ++ a.first
  collections := nodes.filter Node.isCollection ++ a.collections

def next? : Agenda → Option (Node × Agenda)
  | ⟨n :: first, collections⟩ => some (n, ⟨first, collections⟩)
  | ⟨[], n :: collections⟩ => some (n, ⟨[], collections⟩)
  | ⟨[], []⟩ => none

end Agenda

/-- Looks for computations and gives those that it has not found. `seen` holds the marks of the
nodes that have been visited. If the steps do not suffice, all count as found. -/
def search (w : World language) :
    (steps : Nat) → (wanted : Std.HashSet Nat) → Agenda → (seen : Std.HashSet (Nat × Nat)) →
    Std.HashSet Nat
  | 0, _, _, _ => {}
  | steps + 1, wanted, agenda, seen =>
    if wanted.isEmpty then wanted
    else
      match agenda.next? with
      | none => wanted
      | some (node, agenda) =>
        match node.mark? with
        | none => search w steps wanted (agenda.add (node.parts w)) seen
        | some mark =>
          if seen.contains mark then search w steps wanted agenda seen
          else
            search w steps (node.strike wanted) (agenda.add (node.parts w)) (seen.insert mark)

/-- Where the search starts. -/
def roots (w : World language) : List Node :=
  Node.frame globalFrame :: w.memory.calls.map .frame ++ w.memory.catchers.map .frame
    ++ Node.values w.pending ++ Node.values w.stored
    ++ ((List.range w.computations.next).filter w.isRoot).map fun id => .value (.computation id)

def searchSteps : Nat := 1000000000

/-- Those of the computations that nothing holds any more. -/
def lost (w : World language) (computations : List Nat) : List Nat :=
  let unseen := search w searchSteps (.ofList computations) (Agenda.add {} (roots w)) {}
  computations.filter unseen.contains

/-- Whether a global variable or an evaluation in progress has this computation as a value. -/
def names (w : World language) (computation : Nat) : Bool :=
  w.pending.any (·.computation? = some computation)
    || ((w.memory.frames.get? globalFrame).any fun f =>
      f.bindings.any (·.2.computation? = some computation))

end OneShot.Script
