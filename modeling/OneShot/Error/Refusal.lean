import OneShot.Error.Kind

/-!
# Refusals

An operation is refused if the values that it is given do not have it. A report shows only the
kind of such an error. The text is there for a program that looks at the error itself.
-/

namespace OneShot

/-- The sequences that can be asked for a position. -/
inductive SequenceKind where
  | list | tuple | text
  deriving DecidableEq

inductive Refusal where
  -- Computations
  /-- The computation is running. -/
  | running
  /-- The end of an iteration was about to leave the body of a computation. -/
  | endOfIteration
  -- Calls
  | notCallable (typeName : String)
  | noArguments (className : String)
  | oneArgument (className : String) (got : Nat)
  -- Attributes
  | noAttribute (typeName name : String)
  | noClassAttribute (className name : String)
  | frozenField (name : String)
  | fixedAttribute (typeName name : String)
  | attributeName (typeName : String)
  -- Keys and contents
  | notKey (typeName : String)
  | notIndexable (typeName : String)
  | classNotIndexable (className : String)
  | notPosition (sequence : SequenceKind) (typeName : String)
  | outOfRange (sequence : SequenceKind)
  | notAssignable (typeName : String)
  | assignmentOutOfRange
  -- Sequences and mappings
  | notIterable (typeName : String)
  | notContainer (typeName : String)
  | notTextPart (typeName : String)
  /-- The item at the position stands for no entry of a mapping. -/
  | notPair (position : Nat)
  | pairLength (position length : Nat)
  | notParts (typeName : String)
  | tooManyParts
  | tooFewParts (got : Nat)
  | keysNotIterable (typeName keysType : String)
  /-- A mapping got new entries while it was gone through. -/
  | changedSize
  -- Numbers and texts
  | notOrdered (first second : String)
  | notText (position : Nat) (typeName : String)
  | notCount (typeName : String)
  -- Classes
  | baseOrder (bases : List String)
  | repeatedBase (name : String)
  | noNaming (className : String)
  /-- The values nest too deeply. -/
  | tooDeep
  /-- The arguments do not suit the operation. -/
  | unsuited

namespace Refusal

def kind : Refusal → ErrorKind
  | .running | .pairLength .. | .tooManyParts | .tooFewParts _ => .value
  | .endOfIteration | .changedSize => .runtime
  | .noAttribute .. | .noClassAttribute .. | .fixedAttribute .. => .noAttribute
  | .frozenField _ => .frozenField
  | .outOfRange _ | .assignmentOutOfRange => .index
  | .tooDeep => .recursion
  | _ => .type

def object (typeName : String) : String := "'" ++ typeName ++ "' object"

/-- How a refused position names the sequence. -/
def positions (typeName : String) : SequenceKind → String
  | .list => "list indices must be integers or slices, not " ++ typeName
  | .tuple => "tuple indices must be integers or slices, not " ++ typeName
  | .text => "string indices must be integers, not '" ++ typeName ++ "'"

def sequenceName : SequenceKind → String
  | .list => "list"
  | .tuple => "tuple"
  | .text => "string"

/-- The text of a refusal, if it has one. -/
def text : Refusal → Option String
  | .running => "generator already executing"
  | .endOfIteration => "generator raised StopIteration"
  | .notCallable t => object t ++ " is not callable"
  | .noArguments c => c ++ "() takes no arguments"
  | .oneArgument c n => c ++ " expected at most 1 argument, got " ++ toString n
  | .noAttribute t name => object t ++ " has no attribute '" ++ name ++ "'"
  | .noClassAttribute c name => "type object '" ++ c ++ "' has no attribute '" ++ name ++ "'"
  | .frozenField name => "cannot assign to field '" ++ name ++ "'"
  | .fixedAttribute t name => "property '" ++ name ++ "' of " ++ object t ++ " has no setter"
  | .attributeName t => "attribute name must be string, not '" ++ t ++ "'"
  | .notKey t => "unhashable type: '" ++ t ++ "'"
  | .notIndexable t => object t ++ " is not subscriptable"
  | .classNotIndexable c => "type '" ++ c ++ "' is not subscriptable"
  | .notPosition sequence t => positions t sequence
  | .outOfRange sequence => sequenceName sequence ++ " index out of range"
  | .notAssignable t => object t ++ " does not support item assignment"
  | .assignmentOutOfRange => "list assignment index out of range"
  | .notIterable t => object t ++ " is not iterable"
  | .notContainer t => "argument of type '" ++ t ++ "' is not iterable"
  | .notTextPart t => "'in <string>' requires string as left operand, not " ++ t
  | .notPair i =>
    "cannot convert dictionary update sequence element #" ++ toString i ++ " to a sequence"
  | .pairLength i n =>
    "dictionary update sequence element #" ++ toString i ++ " has length " ++ toString n
      ++ "; 2 is required"
  | .notParts t => "cannot unpack non-iterable " ++ t ++ " object"
  | .tooManyParts => "too many values to unpack (expected 2)"
  | .tooFewParts n => "not enough values to unpack (expected 2, got " ++ toString n ++ ")"
  | .keysNotIterable t k => t ++ ".keys() returned a non-iterable (type " ++ k ++ ")"
  | .changedSize => "dictionary changed size during iteration"
  | .notOrdered first second =>
    "'>' not supported between instances of '" ++ first ++ "' and '" ++ second ++ "'"
  | .notText i t =>
    "sequence item " ++ toString i ++ ": expected str instance, " ++ t ++ " found"
  | .notCount t => object t ++ " cannot be interpreted as an integer"
  | .baseOrder bases =>
    "Cannot create a consistent method resolution\norder (MRO) for bases "
      ++ ", ".intercalate bases
  | .repeatedBase name => "duplicate base class " ++ name
  | .noNaming c => c ++ ".__init_subclass__() takes no keyword arguments"
  | .tooDeep => "maximum recursion depth exceeded in comparison"
  | .unsuited => none

end Refusal

end OneShot
