import OneShot.Holding
import OneShot.Source
import OneShot.TopLevel

/-!
# Running a source to its end

`run` gives the result, `safeRun` gives a record of it, and `debugRun` traces on the way.
-/

namespace OneShot.World

variable {L : Language}

/-- Runs a source to its end. An action that comes up to here is an error. -/
def run (host : Host (World L)) (source : Value) : Exec (World L) Value := do
  let computation ← toComputation host source
  holding [.computation computation] (TopLevel.finish host (host.drive computation))

/-- Runs a source and keeps the result or the error in a record. An interrupt or an exit is
not kept. -/
def safeRun (host : Host (World L)) (source : Value) : Exec (World L) Value :=
  Exec.rescue (do Exec.alter (addReport { value := ← run host source, error := .nil })) fun e => do
    if e.kind.isCatchable then
      Exec.modify keepCallers
      Exec.alter (addReport { value := .nil, error := .error e })
    else Exec.raise e

/-- A tracer around a source. Without a label it goes by the name of the computation. -/
def traced (host : Host (World L)) (source label limit : Value) : Exec (World L) Value := do
  let computation ← toComputation host source
  let given ← Exec.read fun w => w.isGiven label
  let name ← Exec.read fun w => ((w.computations.get? computation).map (·.name)).getD ""
  spawn "_traced" (.tracing computation (if given then label else .str name) limit .start)

def debugLabel : String := "debug_run"

/-- The limit of a debug run that is given none. -/
def debugLimit : Value := .int 1000

/-- Runs a source with a tracer around it. -/
def debugRun (host : Host (World L)) (source limit : Value) : Exec (World L) Value := do
  run host (← traced host source (.str debugLabel) limit)

/-- The result that a record keeps. A kept error is raised again. -/
def unwrap (r : Report) : Exec (World L) Value :=
  match r.error with
  | .nil => pure r.value
  | e => raiseValue e

end OneShot.World
