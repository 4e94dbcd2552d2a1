import OneShot.Host

/-!
# The top of a run

Nothing above the top level can answer, so a computation that suspends there has failed.
-/

namespace OneShot.TopLevel

variable {W : Type}

/-- Drives a source once and gives its result. -/
def finish (host : Host W) (source : Value → Exec W Step) : Exec W Value := do
  match ← source .nil with
  | .completed result => return result
  | .suspended action => host.fail (.unhandled action)

end OneShot.TopLevel
