import OneShot.Value

/-!
# Specifications

A class that derives from the base specification declares operations: its public annotations
and its public plain functions. `operations` collects them along the linearisation.
-/

namespace OneShot

namespace Spec

/-- What a class can hold under a name. -/
inductive Content where
  /-- A function of an object of the class. The object is one of its parameters. -/
  | method (parameters : Nat)
  | staticMethod | classMethod | property
  /-- Any other value. A function is one of the class as well. -/
  | constant (v : Value)

/-- Whether the content is a plain function. -/
def Content.isFunction : Content → Bool
  | .method _ => true
  | .constant v => v.isFunction
  | _ => false

/-- A name with its content in a class. -/
structure Attribute where
  name : String
  content : Content

/-- One line of the body of a class. -/
inductive Declaration where
  /-- The name is annotated. That gives it no content. -/
  | annotated (name : String)
  | attribute (a : Attribute)

/-- A later definition of the same name takes the place of the first one. -/
def setAttribute (a : Attribute) : List Attribute → List Attribute
  | [] => [a]
  | b :: rest => if b.name = a.name then a :: rest else b :: setAttribute a rest

/-- The attribute of a class that holds its effect name. -/
def effectNameAttribute : String := "__effect_name__"

end Spec

/-- A class as far as specifications need it. -/
structure SpecClass where
  name : String
  /-- The place that the text of the class names in front of its name. -/
  home : String
  /-- Whether the class derives from the base specification. -/
  isSpec : Bool
  /-- The annotated names in the order of their first annotation. -/
  annotations : List String := []
  attributes : List Spec.Attribute := []
  /-- The identities of the class and its bases in the order of search. -/
  linearisation : List Nat := []

namespace SpecClass

open Spec

/-- Takes up one line of a class body. -/
def declare (c : SpecClass) : Declaration → SpecClass
  | .annotated name =>
    if c.annotations.contains name then c
    else { c with annotations := c.annotations ++ [name] }
  | .attribute a => { c with attributes := setAttribute a c.attributes }

/-- What the class itself holds under a name. -/
def content? (c : SpecClass) (name : String) : Option Content :=
  (c.attributes.find? fun a => a.name = name).map (·.content)

/-- Sets the effect name of the class. -/
def setEffectName (c : SpecClass) (name : Value) : SpecClass :=
  c.declare (.attribute ⟨effectNameAttribute, .constant name⟩)

/-- A specification without an effect name of its own goes by its class name. -/
def nameByDefault (c : SpecClass) : SpecClass :=
  if c.isSpec ∧ (c.content? effectNameAttribute).isNone then c.setEffectName (.str c.name) else c

/-- The functions of the class itself. -/
def functions (c : SpecClass) : List String :=
  (c.attributes.filter (·.content.isFunction)).map (·.name)

def isPublic (name : String) : Bool := !name.startsWith "_"

/-- The operations that the class itself declares, annotations first. -/
def declared (c : SpecClass) : List String :=
  if c.isSpec then (c.annotations ++ c.functions).filter isPublic else []

end SpecClass

namespace Spec

/-- Adds a name at the end unless it is there. -/
def addName (names : List String) (name : String) : List String :=
  if names.contains name then names else names ++ [name]

/-- The operations declared along a linearisation, the most basic class first. -/
def operations (linearisation : List SpecClass) : List String :=
  (linearisation.reverse.flatMap SpecClass.declared).foldl addName []

/-- The content of a name in the first class of a linearisation that has one, with the place of
the class. -/
def content? (linearisation : List (Nat × SpecClass)) (name : String) : Option (Nat × Content) :=
  linearisation.findSome? fun entry => (entry.2.content? name).map fun c => (entry.1, c)

end Spec

end OneShot
