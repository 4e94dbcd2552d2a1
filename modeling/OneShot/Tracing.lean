import OneShot.Host

/-!
# Tracing

A tracer stands around a computation and keeps a record of what passes. It changes nothing
that passes. With a limit it refuses to let more than that many suspensions through.
-/

namespace OneShot.Tracing

/-- Where a suspended tracer goes on. -/
inductive Phase where
  | start
  /-- So many suspensions have been let through, and the last one waits for its answer. -/
  | waiting (steps : Nat)

variable {W : Type}

/-- Refuses the suspension with this number if it is over the limit. -/
def checkLimit (host : Host W) (limit : Value) (step : Nat) : Exec W Unit :=
  match limit with
  | .nil => pure ()
  | limit =>
    match limit.number? with
    | some most => if most < step then host.fail (.stepLimit limit) else pure ()
    | none => host.fail (.refused (.notOrdered "int" limit.typeName))

/-- Lets a step of the source pass after `steps` suspensions. -/
def pass (host : Host W) (label limit : Value) (steps : Nat) : Step → Exec W (Move Phase)
  | .suspended action => do
    checkLimit host limit (steps + 1)
    host.note (.traceSuspended label (steps + 1) action)
    return .suspend action (.waiting (steps + 1))
  | .completed result => do
    host.note (.traceCompleted label steps result)
    return .complete result

/-- One drive of the tracer around `source`. -/
def advance (host : Host W) (label limit : Value) (source : Value → Exec W Step) :
    Phase → Value → Exec W (Move Phase)
  | .start, _ => do pass host label limit 0 (← source .nil)
  | .waiting steps, v => do
    host.note (.traceResumed label steps v)
    pass host label limit steps (← source v)

end OneShot.Tracing
