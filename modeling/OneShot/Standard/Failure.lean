import OneShot.Host

/-!
# Failure

A computation throws an error as an action. A handler can end the handling with what it makes
of the error.
-/

namespace OneShot.Failure

variable {W : Type}

/-- Ends the handling with what `recover` makes of the error. -/
def recoverFrom (host : Host W) (recover e tactics : Value) : Exec W Unit := do
  host.settle tactics (.abort (← host.call recover [e]))

end OneShot.Failure
