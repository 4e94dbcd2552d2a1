/-!
# Primitives

The operations that a script can apply to values, and the names it uses for them.
-/

namespace OneShot.Script

inductive Primitive where
  -- Actions and steps
  | action | isAction | suspended | completed | resumeValue | abortValue
  -- Computations
  | advance | isEffectful | isFresh | pure | toComputation | traced
  | run | safeRun | debugRun | report | unwrap
  -- Effects and specifications
  | createEffect | effect | derive | operationsOf | spec | plainClass
  -- Handling
  | tactics | resume | abort | handle | freeze | merge | lookup
  -- Standard handlers
  | stateHandlers | readerHandlers | writerHandlers | failureHandlers | shadow | recovering
  -- Errors
  | contractError | unhandledError | missingKeyError | error
  -- Access
  | attr | hasAttr | setAttr | item | contains | names | call | invoke
  -- Data
  | machine | list | tuple | dict | append | put | index | length
  | add | subtract | multiply | less | upper | not | equal | identical
  | display | inspect | typeName
  deriving DecidableEq

namespace Primitive

/-- The primitives with their names in scripts. -/
def table : List (String × Primitive) :=
  [("action", .action), ("is_action", .isAction), ("suspended", .suspended),
    ("completed", .completed), ("resume_value", .resumeValue), ("abort_value", .abortValue),
    ("advance", .advance), ("is_effectful", .isEffectful), ("is_fresh", .isFresh),
    ("pure", .pure), ("to_computation", .toComputation), ("traced", .traced),
    ("run", .run), ("sync_run", .safeRun), ("debug_run", .debugRun),
    ("run_result", .report), ("unwrap", .unwrap),
    ("create_effect", .createEffect), ("effect", .effect), ("derive", .derive),
    ("operations_of", .operationsOf), ("spec", .spec), ("plain_class", .plainClass),
    ("tactics", .tactics), ("resume", .resume), ("abort", .abort), ("handle", .handle),
    ("freeze", .freeze), ("merge", .merge), ("lookup", .lookup),
    ("state_handlers", .stateHandlers), ("reader_handlers", .readerHandlers),
    ("writer_handlers", .writerHandlers), ("failure_handlers", .failureHandlers),
    ("local", .shadow), ("catch", .recovering),
    ("handle_error", .contractError), ("unhandled_error", .unhandledError),
    ("missing_env_error", .missingKeyError), ("error", .error),
    ("attr", .attr), ("hasattr", .hasAttr), ("setattr", .setAttr), ("item", .item),
    ("in", .contains), ("dir", .names), ("call", .call), ("op", .invoke),
    ("machine", .machine), ("list", .list), ("tuple", .tuple), ("dict", .dict),
    ("append", .append), ("put", .put), ("index", .index), ("len", .length),
    ("add", .add), ("sub", .subtract), ("mul", .multiply), ("lt", .less),
    ("upper", .upper), ("not", .not), ("eq", .equal), ("is", .identical),
    ("str", .display), ("repr", .inspect), ("type", .typeName)]

def ofName? (name : String) : Option Primitive := table.lookup name

end Primitive

end OneShot.Script
