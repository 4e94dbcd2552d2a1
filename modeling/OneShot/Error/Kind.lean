/-!
# Kinds of errors

The kinds that a report tells apart.
-/

namespace OneShot

inductive ErrorKind where
  | value | type | key | runtime | index | connection | noAttribute | frozenField | name
  | recursion
  | stopIteration | keyboardInterrupt | systemExit
  | contract | unhandled | missingKey
  deriving DecidableEq, Inhabited

namespace ErrorKind

/-- The word that a report uses for the kind. -/
def label : ErrorKind → String
  | .value => "ValueError"
  | .type => "TypeError"
  | .key => "KeyError"
  | .runtime => "RuntimeError"
  | .index => "IndexError"
  | .connection => "ConnectionError"
  | .noAttribute => "AttributeError"
  | .frozenField => "FrozenInstanceError"
  | .name => "NameError"
  | .recursion => "RecursionError"
  | .stopIteration => "StopIteration"
  | .keyboardInterrupt => "KeyboardInterrupt"
  | .systemExit => "SystemExit"
  | .contract => "HandleError"
  | .unhandled => "UnhandledActionError"
  | .missingKey => "MissingEnvKeyError"

/-- The kinds that a program can make on its own. -/
def makable : List ErrorKind :=
  [.value, .type, .key, .runtime, .index, .connection, .noAttribute, .stopIteration,
    .keyboardInterrupt, .systemExit]

def ofLabel? (label : String) : Option ErrorKind :=
  makable.find? fun kind => kind.label == label

/-- An interrupt or an exit ends the run. Everything else can be caught. -/
def isCatchable : ErrorKind → Bool
  | .keyboardInterrupt | .systemExit => false
  | _ => true

/-- A failed look-up shows its key in quotes. -/
def quotesArgument : ErrorKind → Bool
  | .key | .missingKey => true
  | _ => false

/-- A missing attribute, or one that cannot be set. -/
def isAttribute : ErrorKind → Bool
  | .noAttribute | .frozenField => true
  | _ => false

end ErrorKind

end OneShot
