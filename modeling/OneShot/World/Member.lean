import OneShot.World

/-!
# Members of classes

What a class has under a name depends on where one looks. A function is bound to the object that
it is looked at in, and a computed attribute is computed there.
-/

namespace OneShot.World

variable {L : Language}

/-- What the nearest class in the order of search has under a name, with that class. -/
def member? (w : World L) (cls : Nat) (name : String) : Option (Nat × Spec.Content) :=
  Spec.content? (w.linearisation cls) name

/-- The attribute of a class under which its own name is found. -/
def classNameAttribute : String := "__name__"

/-- The attribute of a class that makes its objects callable. -/
def callAttribute : String := "__call__"

/-- What is found in the class itself. -/
def classAttribute? (w : World L) (cls : Nat) (name : String) : Option Value :=
  if name = classNameAttribute then some (.str (w.className cls))
  else (w.member? cls name).map fun (owner, content) =>
    match content with
    | .method _ | .staticMethod => .member owner name
    | .classMethod => .method (.spec cls) (.member owner name)
    | .property => .property owner name
    | .constant v => v

/-- What is found in an object of the class. The computed attributes of classes give nothing. -/
def instanceAttribute? (w : World L) (object : Value) (cls : Nat) (name : String) :
    Option Value :=
  (w.member? cls name).map fun (owner, content) =>
    match content with
    | .method _ => .method object (.member owner name)
    | .staticMethod => .member owner name
    | .classMethod => .method (.spec cls) (.member owner name)
    | .property => .nil
    | .constant v => if v.isFunction then .method object (.member owner name) else v

/-- Whether the objects of a class are mappings. -/
def isMappingClass (w : World L) (cls : Nat) : Bool :=
  (w.linearisation cls).any fun entry => entry.1 = baseMapping

/-- A new object of a class. It keeps the entries if it is a mapping. -/
def addInstance (cls : Nat) (entries : Assoc Value) (w : World L) : Value × World L :=
  let object (entries : Option Nat) (id : Nat) : Value :=
    .instanceOf id cls (w.className cls) (w.member? cls callAttribute).isSome entries
  if cls = baseMapping then w.addDict entries
  else if w.isMappingClass cls then
    let (own, dicts) := w.dicts.add entries
    { w with dicts }.addObject (object (some own))
  else w.addObject (object none)

end OneShot.World
