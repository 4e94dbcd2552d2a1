import OneShot.World.Sequence
import OneShot.Spec.Linearisation

/-!
# Making effects and specifications
-/

namespace OneShot.World

variable {L : Language}

/-! ## Effects -/

/-- Makes an effect. The function gets the identity of the first creator. -/
def makeEffect (build : Nat → Except (Cause Value) Namespace) : Exec (World L) Value := do
  let next ← Exec.read fun w => w.nextId
  let n ← ofExcept (build next)
  let _ ← Exec.alter (takeIds n.creators.length)
  Exec.alter (addEffect n)

/-- The attribute that holds the order of search of a class. -/
def searchOrder : String := "__mro__"

/-- The operations that a class declares with its bases. -/
def operationsOf (v : Value) : Exec (World L) (List String) := do
  match v with
  | .spec id => Exec.read fun w => Spec.operations ((w.linearisation id).map (·.2))
  | v =>
    let _ ← access v searchOrder
    refuse .unsuited

/-- An effect with a name and operations that any sequence can give. Each operation is added before
the next one is taken. -/
def effectFrom (host : Host (World L)) (bound : Nat) (name operations : Value) :
    Exec (World L) Value := do
  let empty ← ofExcept (Namespace.start name)
  let add (n : Namespace) (operation : Value) : Exec (World L) Namespace := do
    let id ← Exec.alter (takeIds 1)
    ofExcept (n.add id operation)
  let declared ← (← cursor operations).fold host add bound empty
  Exec.alter (addEffect declared.finish)

/-- Whether a value is one of the declared names. -/
def isDeclared (declared : List String) (operation : Value) : Bool :=
  declared.any fun name => (Value.str name).same operation

/-- An effect from a name or from a specification. Operations that the specification declares
are not added again. -/
def createEffect (source : Value) (operations : List Value) : Exec (World L) Value := do
  match source with
  | .str _ => makeEffect fun next => Namespace.create source next operations
  | .spec id =>
    match ← Exec.read fun w => w.classes.get? id with
    | some c =>
      if c.isSpec then
        let declared ← operationsOf source
        let extra := operations.filter fun o => !isDeclared declared o
        let name ← access source Spec.effectNameAttribute
        makeEffect fun next => Namespace.create name next (declared.map .str ++ extra)
      else fail (.effectSource source)
    | none => fail (.effectSource source)
  | _ => fail (.effectSource source)

/-- The effect's operations under another name. -/
def deriveFrom (id : Nat) (name : Value) : Exec (World L) Value := do
  match ← Exec.read fun w => w.effects.get? id with
  | some n => makeEffect (n.derive name)
  | none => refuse .unsuited

/-- Derives from an effect, or from the effect that the source stands for. -/
def derive (name source : Value) : Exec (World L) Value := do
  let base ← match source with
    | .effect _ => pure source
    | source => createEffect source []
  match base with
  | .effect id => deriveFrom id name
  | _ => refuse .unsuited

/-! ## Specifications -/

/-- The identities of classes. Nothing else can be a base. -/
def classIds? : List Value → Option (List Nat)
  | [] => some []
  | .spec id :: rest => (classIds? rest).map (id :: ·)
  | _ :: _ => none

/-- The names of classes. -/
def classNames (w : World L) (ids : List Nat) : List String := ids.map w.className

/-- Why bases have no common order of search. -/
def orderRefusal (w : World L) (bases : List Nat) : Refusal :=
  match bases.find? fun id => 1 < bases.count id with
  | some id => .repeatedBase (w.className id)
  | none => .baseOrder (w.classNames bases)

/-- The order of search of the bases of a new class. -/
def searchBases (bases : List Nat) : Exec (World L) (List Nat) := do
  let order (w : World L) (id : Nat) := ((w.classes.get? id).map (·.linearisation)).getD []
  match ← Exec.read fun w => Spec.linearise bases (order w) with
  | some linearisation => return linearisation
  | none => refuse (← Exec.read fun w => w.orderRefusal bases)

/-- Makes a class. A specification goes by its own name unless it is given an effect name. Only
a specification can be given one. -/
def declareClass (name home : String) (effectName : Value) (bases : List Nat)
    (body : List Spec.Declaration) : Exec (World L) Value := do
  let linearisation ← searchBases bases
  let isSpec := linearisation.contains baseSpec
  let c := body.foldl SpecClass.declare ⟨name, home, isSpec, [], [], linearisation⟩
  match effectName with
  | .nil => Exec.alter (addClass c.nameByDefault)
  | given =>
    if isSpec then Exec.alter (addClass (c.setEffectName given))
    else refuse (.noNaming name)

end OneShot.World
