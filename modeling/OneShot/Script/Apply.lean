import OneShot.Script.Data

/-!
# Applying a primitive

The arguments have been evaluated from left to right. A primitive that has no meaning for them
refuses.
-/

namespace OneShot.Script

open World

/-! ## Parts of the primitives -/

/-- An action. Its parameters are the items of the value given for them. -/
def makeAction (host : Host (World language)) (bound : Nat) (effect operation parameters : Value) :
    ScriptExec Value := do
  match parameters with
  | .tuple tuple items => Exec.alter (addObject fun id => .action id effect operation tuple items)
  | parameters => Exec.alter (addAction effect operation (← iterate host bound parameters))

/-- An error object that nothing has raised yet. -/
def errorObject (cause : Cause Value) : ScriptExec Value := do return .error (← mint cause)

/-- The kinds that a program can make are looked up by their names. -/
def makeError (kind : Value) (argument : Option Value) : ScriptExec Value := do
  requireKey kind
  match kind with
  | .str label =>
    match ErrorKind.ofLabel? label with
    | some found => errorObject (.made found argument)
    | none => fail (.noEntry kind)
  | _ => fail (.noEntry kind)

/-- One line of the body of a class. A plain attribute is 0, and a method has one parameter. -/
def declaration? (kind name : Value) : Option Spec.Declaration :=
  match kind, name with
  | .str "effect_name", v => some (.attribute ⟨Spec.effectNameAttribute, .constant v⟩)
  | .str "val", .str name => some (.annotated name)
  | .str "op", .str name => some (.attribute ⟨name, .method 1⟩)
  | .str "static", .str name => some (.attribute ⟨name, .staticMethod⟩)
  | .str "class", .str name => some (.attribute ⟨name, .classMethod⟩)
  | .str "prop", .str name => some (.attribute ⟨name, .property⟩)
  | .str "attr", .str name => some (.attribute ⟨name, .constant (.int 0)⟩)
  | _, _ => none

/-- Reads the body of a class. -/
def readBody (host : Host (World language)) (bound : Nat) :
    List Value → ScriptExec (List Spec.Declaration)
  | [] => pure []
  | v :: rest => do
    match ← iterate host bound v with
    | [kind, name] =>
      match declaration? kind name with
      | some line => return line :: (← readBody host bound rest)
      | none => refuse .unsuited
    | _ => refuse .unsuited

/-- The place that the texts of the classes of a script name. -/
def scriptHome : String := "m"

/-- Makes a class. Without bases it derives from the default ones. -/
def makeClass (host : Host (World language)) (bound : Nat) (name effectName bases body : Value)
    (defaultBases : List Nat) : ScriptExec Value := do
  let baseItems ← iterate host bound bases
  let lines ← readBody host bound (← iterate host bound body)
  match name, classIds? baseItems with
  | .str name, some ids =>
    declareClass name scriptHome effectName (if ids.isEmpty then defaultBases else ids) lines
  | _, _ => refuse .unsuited

/-! ## The primitives -/

/-- The primitives of the library: computations, effects, tables, handlers and errors. -/
def libraryCall (host : Host (World language)) (bound : Nat) (p : Primitive)
    (arguments : List Value) : ScriptExec Value := do
  match p, arguments with
  | .action, [e, o] => Exec.alter (addAction e o [])
  | .action, [e, o, ps] => makeAction host bound e o ps
  | .isAction, [v] => return .bool v.isAction
  | .suspended, [v] => Exec.alter (addObject (.suspended · v))
  | .completed, [v] => Exec.alter (addObject (.completed · v))
  | .resumeValue, [v] => Exec.alter (addObject (.resume · v))
  | .abortValue, [v] => Exec.alter (addObject (.abort · v))
  | .advance, [c] => advance host c .nil
  | .advance, [c, v] => advance host c v
  | .isEffectful, [v] => return .bool v.computation?.isSome
  | .isFresh, [v] => return .bool (← isFresh v)
  | .pure, [v] => spawn "pure" (.pure v)
  | .toComputation, [v] => return .computation (← toComputation host v)
  | .traced, [s] => traced host s .nil .nil
  | .traced, [s, label] => traced host s label .nil
  | .traced, [s, label, limit] => traced host s label limit
  | .run, [s] => run host s
  | .safeRun, [s] => safeRun host s
  | .debugRun, [s] => debugRun host s debugLimit
  | .debugRun, [s, limit] => debugRun host s limit
  | .report, [v, e] => Exec.alter (addReport { value := v, error := e })
  | .unwrap, [r] => invoke host.call r "unwrap" []
  | .createEffect, s :: operations => createEffect s operations
  | .effect, [name, operations] => effectFrom host bound name operations
  | .derive, [name, s] => derive name s
  | .operationsOf, [s] => newTuple ((← operationsOf s).map .str)
  | .spec, [name, effectName, bases, members] =>
    makeClass host bound name effectName bases members [baseSpec]
  | .plainClass, [name, bases, members] => makeClass host bound name .nil bases members []
  | .tactics, [a] => return .tactics (← issue a)
  | .resume, t :: values => invoke host.call t "resume" values
  | .abort, t :: values => invoke host.call t "abort" values
  | .handle, [a, b] => handle host a b
  | .freeze, [t] => freeze t
  | .merge, tables => merge host bound tables
  | .lookup, [t, a] => World.lookup host bound t a
  | .stateHandlers, [] => stateHandlers host bound .nil
  | .stateHandlers, [initial] => stateHandlers host bound initial
  | .readerHandlers, [] => readerHandlers host bound .nil
  | .readerHandlers, [environment] => readerHandlers host bound environment
  | .writerHandlers, [] => writerHandlers
  | .failureHandlers, [] => failureHandlers
  | .shadow, [overrides, s] => shadow host bound overrides s
  | .recovering, [s, recover] => recovering host s recover
  | .contractError, [a, reason] => errorObject (.contract a reason)
  | .unhandledError, [a] => errorObject (.unhandled a)
  | .missingKeyError, [key] => errorObject (.missingKey key)
  | _, _ => refuse .unsuited

/-- Access to the parts of values, and operations on plain data. -/
def dataCall (host : Host (World language)) (bound : Nat) (p : Primitive)
    (arguments : List Value) : ScriptExec Value := do
  match p, arguments with
  | .error, [kind] => makeError kind none
  | .error, [kind, argument] => makeError kind (some argument)
  | .attr, [v, .str name] => access v name
  | .hasAttr, [v, .str name] => return .bool (← hasAttribute v name)
  | .setAttr, [v, .str name, new] => quietly (World.assign v name new)
  | .item, [v, key] => item v key
  | .contains, [v, container] => return .bool (← contains host bound v container)
  | .names, [v] => publicNames v
  | .call, f :: values => host.call f values
  | .invoke, v :: .str name :: values => invoke host.call v name values
  | .machine, [] => Exec.alter (addObject .machine)
  | .list, items => Exec.alter (addList items)
  | .tuple, items => newTuple items
  | .dict, entries => makeDict entries
  | .append, [target, v] => appendTo host target v
  | .put, [target, key, v] => putInto host target key v
  | .index, [v, key] => index v key
  | .length, [v] => length v
  | .add, [a, b] => add a b
  | .subtract, [a, b] => arithmetic "sub" (fun m n => .int (m - n)) a b
  | .multiply, [a, b] => arithmetic "mul" (fun m n => .int (m * n)) a b
  | .less, [a, b] => arithmetic "lt" (fun m n => .bool (m < n)) a b
  | .upper, [v] => upper v
  | .not, [v] => negate v
  | .equal, [a, b] => return .bool (← equal a b)
  | .identical, [a, b] => return .bool (a.identical b)
  | .display, [v] => Exec.read fun w => .str (w.display v)
  | .inspect, [v] => Exec.read fun w => .str (w.inspect v)
  | .typeName, [v] => return .str v.typeName
  | _, _ => refuse .unsuited

namespace Primitive

/-- Whether a primitive is one of the library rather than one of access or data. -/
def isLibrary : Primitive → Bool
  | .error | .attr | .hasAttr | .setAttr | .item | .contains | .names | .call | .invoke
  | .machine | .list | .tuple | .dict | .append | .put | .index | .length
  | .add | .subtract | .multiply | .less | .upper | .not | .equal | .identical
  | .display | .inspect | .typeName => false
  | _ => true

/-- The arguments that a primitive hands on as values, into data or to what it calls. The others it
drives or only looks at. -/
def kept : Primitive → List Value → List Value
  | .action, vs | .suspended, vs | .completed, vs | .resumeValue, vs | .abortValue, vs
  | .pure, vs | .report, vs | .createEffect, vs | .effect, vs | .derive, vs | .spec, vs
  | .plainClass, vs | .tactics, vs | .resume, vs | .abort, vs | .stateHandlers, vs
  | .readerHandlers, vs | .contractError, vs | .unhandledError, vs | .missingKeyError, vs
  | .error, vs | .call, vs | .list, vs | .tuple, vs | .dict, vs | .append, vs | .put, vs => vs
  | .advance, vs | .traced, vs | .debugRun, vs | .recovering, vs | .setAttr, vs | .invoke, vs =>
    vs.drop 1
  | _, _ => []

def apply (host : Host (World language)) (bound : Nat) (p : Primitive) (arguments : List Value) :
    ScriptExec Value :=
  if p.isLibrary then libraryCall host bound p arguments else dataCall host bound p arguments

end Primitive

end OneShot.Script
