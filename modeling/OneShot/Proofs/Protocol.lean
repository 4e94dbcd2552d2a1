import OneShot.Proofs.Loop

/-!
# The answer protocol

What happens while a computation is handled is kept in a log. The protocol says what may come next:
each suspension of the source gets one answer, and the source is advanced with nothing else. A log
has one reading, so a log that follows the protocol leaves no doubt about any answer.
-/

namespace OneShot.Protocol

open Dispatch (Phase parametersOf)

/-! ## What happens -/

inductive Act where
  /-- The driver sends a value. -/
  | sent (v : Value)
  /-- The driver sees how its drive ends. -/
  | gave (sight : Sight)
  /-- The source is driven. -/
  | advanced (v : Value) (r : Result Step)
  /-- A token is made for an action. The tokens before and after that are kept. -/
  | issued (action : Value) (r : Result Nat) (before after : Nat → Option Token)
  | called (f : Value) (arguments : List Value) (r : Result Value)
  /-- A computation that an entry returned is driven. -/
  | drove (computation : Nat) (v : Value) (r : Result Step)
  /-- The loop looks at what a token has recorded. -/
  | read (token : Nat) (record : Option Token)
  /-- A new error is made. -/
  | made (cause : Cause Value) (r : Result Error)

namespace Act

def sent? : Act → Option Value
  | sent v => some v
  | _ => none

def gave? : Act → Option Sight
  | gave sight => some sight
  | _ => none

def isAdvanced : Act → Bool
  | advanced .. => true
  | _ => false

/-- The driver takes no part in it. -/
def Inner (a : Act) : Prop := a.sent? = none ∧ a.gave? = none

end Act

/-! ## Stages -/

/-- What is to happen next. -/
inductive Stage where
  /-- The driver sends a value. -/
  | waits (phase : Phase)
  /-- The source is driven with its answer. -/
  | answered (v : Value)
  /-- A token is made for an action that has a handler. -/
  | claimed (action handler : Value)
  /-- The handler is called. -/
  | issued (action handler : Value) (token : Nat)
  /-- The computation that the handler returned is driven. -/
  | runs (computation : Nat) (action : Value) (token : Nat) (v : Value)
  /-- The handler and its computation have ended, so the token decides. -/
  | settles (action : Value) (token : Nat)
  | refuses (cause : Cause Value)
  | yields (x : Value) (phase : Phase)
  | returns (r : Value)
  | raises (e : Error)
  | over
  /-- Something has not come to an end. -/
  | stuck

namespace Stage

/-- After a part of the loop. -/
def onward {α : Type} (next : α → Stage) : Result α → Stage
  | .ok a => next a
  | .raised e => .raises e
  | .exhausted => .stuck

/-- Where the answer to a suspension comes from. -/
def owing (table : Table) (x : Value) : Stage :=
  match table.claim x with
  | .unclaimed => .yields x .forwarding
  | .entry entry => if entry.isCallable then .claimed x entry else .answered entry
  | .notKey name => .refuses (.refused name.keyRefusal)

def advanced (table : Table) : Step → Stage
  | .suspended x => owing table x
  | .completed r => .returns r

def called (action : Value) (token : Nat) (returned : Value) : Stage :=
  match returned.computation? with
  | some n => .runs n action token .nil
  | none => .settles action token

def drove (n : Nat) (action : Value) (token : Nat) : Step → Stage
  | .suspended x => .yields x (.handlerBody n action token)
  | .completed _ => .settles action token

def concluded (action : Value) : Option Outcome → Stage
  | none => .refuses (.contract action (.str Token.neverSettled))
  | some (.abort v) => .returns v
  | some (.resume v) => .answered v

/-- What a value is for that the driver sends. The source is first driven without a value. -/
def taken : Value → Phase → Stage
  | _, .start => .answered .nil
  | v, .forwarding => .answered v
  | v, .handlerBody n action token => .runs n action token v

/-- The driver is not in a drive. -/
def Rests (s : Stage) : Prop := (∃ phase, s = .waits phase) ∨ s = .over

end Stage

/-! ## The protocol -/

/-- What may come next at a stage, and the stage that it leads to. -/
inductive Allowed (table : Table) : Stage → Act → Stage → Prop where
  | take {phase v} : Allowed table (.waits phase) (.sent v) (.taken v phase)
  | idle {v} : Allowed table .over (.sent v) (.returns .nil)
  | advance {v r} : Allowed table (.answered v) (.advanced v r) (.onward (.advanced table) r)
  /-- The token is new, it is for the action, and it is pending. -/
  | issue {action handler token before after t} (fresh : before token = none)
      (added : after token = some t) (own : t.action = action) (pending : t.outcome = none) :
      Allowed table (.claimed action handler) (.issued action (.ok token) before after)
        (.issued action handler token)
  | call {action handler token r} :
      Allowed table (.issued action handler token)
        (.called handler (parametersOf action ++ [.tactics token]) r)
        (.onward (.called action token) r)
  | drive {n action token v r} :
      Allowed table (.runs n action token v) (.drove n v r) (.onward (.drove n action token) r)
  | conclude {action token record} :
      Allowed table (.settles action token) (.read token record)
        (.concluded action (record.bind (·.outcome)))
  | refuse {cause e} (h : e.cause = cause) :
      Allowed table (.refuses cause) (.made cause (.ok e)) (.raises e)
  /-- The end of an iteration does not leave the loop. -/
  | convert {e e'} (stop : e.kind = .stopIteration) (h : e'.cause = .refused .endOfIteration) :
      Allowed table (.raises e) (.made (.refused .endOfIteration) (.ok e')) (.raises e')
  | suspend {x phase} : Allowed table (.yields x phase) (.gave (.ok (.suspended x))) (.waits phase)
  | complete {r} : Allowed table (.returns r) (.gave (.ok (.completed r))) .over
  | raise {e} (h : e.kind ≠ .stopIteration) : Allowed table (.raises e) (.gave (.error e)) .over

/-- A log leads from one stage to another one. -/
inductive Follows (table : Table) : Stage → List Act → Stage → Prop where
  | nil {s} : Follows table s [] s
  | cons {s a s₁ log s₂} (allowed : Allowed table s a s₁) (rest : Follows table s₁ log s₂) :
      Follows table s (a :: log) s₂

/-- A run that has not come to an end has left this: a part that does not end, or an answer for the
source where the source was driven as often as the bound says. -/
def LeftOver (bound : Nat) (log : List Act) (s : Stage) : Prop :=
  s = .stuck ∨ (∃ v, s = .answered v) ∧ bound ≤ log.countP Act.isAdvanced

theorem LeftOver.mono {bound : Nat} {log log' : List Act} {s : Stage} (h : LeftOver bound log s)
    (sub : log.Sublist log') : LeftOver bound log' s :=
  h.imp_right fun ⟨answered, le⟩ => ⟨answered, Nat.le_trans le sub.countP_le⟩

section

variable {table : Table} {s s₁ s₂ : Stage} {a : Act} {log log' : List Act}

/-- Nothing leads on in two ways, so each suspension has one answer. -/
theorem Allowed.unique (h : Allowed table s a s₁) (h' : Allowed table s a s₂) : s₁ = s₂ := by
  cases h <;> cases h' <;> rfl

theorem Follows.one (allowed : Allowed table s a s₁) : Follows table s [a] s₁ := .cons allowed .nil

theorem Follows.trans (h : Follows table s log s₁) (h' : Follows table s₁ log' s₂) :
    Follows table s (log ++ log') s₂ := by
  induction h with
  | nil => exact h'
  | cons allowed _ ih => exact .cons allowed (ih h')

theorem Follows.unique (h : Follows table s log s₁) (h' : Follows table s log s₂) : s₁ = s₂ := by
  induction h with
  | nil =>
    cases h'
    rfl
  | cons allowed _ ih =>
    cases h' with
    | cons allowed' rest' =>
      rw [allowed'.unique allowed] at rest'
      exact ih rest'

end

end Protocol

/-! ## Logged runs -/

open Protocol (Act)

variable {W α : Type}

/-- The run in a world with a log beside it. What is put there depends on how the run ends, and on
the worlds before and after it. -/
def Exec.logged (x : Exec W α) (act : W → Result α → W → Act) : Exec (W × List Act) α :=
  fun p => ((x p.1).1, ((x p.1).2, p.2 ++ [act p.1 (x p.1).1 (x p.1).2]))

/-- The services with a log. `tokens` gives the tokens of a world. -/
def Host.logged (host : Host W) (tokens : W → Nat → Option Token) : Host (W × List Act) :=
  { host.beside with
    drive := fun n v => (host.drive n v).logged fun _ r _ => .drove n v r
    call := fun f arguments => (host.call f arguments).logged fun _ r _ => .called f arguments r
    issue := fun action =>
      (host.issue action).logged fun w r w' => .issued action r (tokens w) (tokens w')
    outcome := fun token => (host.outcome token).logged fun w _ _ => .read token (tokens w token)
    mint := fun cause => (host.mint cause).logged fun _ r _ => .made cause r }

def Source.logged (c : Source W) : Source (W × List Act) := fun v =>
  (c v).logged fun _ r _ => .advanced v r

def record {X : Type} (a : Act) : Exec ((W × List Act) × X) Unit :=
  Exec.modify fun p => ((p.1.1, p.1.2 ++ [a]), p.2)

theorem record_apply {X : Type} (a : Act) (w : W) (log : List Act) (x : X) :
    record a ((w, log), x) = (.ok (), ((w, log ++ [a]), x)) := rfl

/-- A session in which the log keeps what the driver sends and sees. -/
def loggedSession {X : Type} (source : Source ((W × List Act) × X)) :
    List Value → Exec ((W × List Act) × X) (List Sight)
  | [] => pure []
  | v :: driver => do
    record (.sent v)
    let sight ← (source v).look
    record (.gave sight)
    return sight :: (← loggedSession source driver)

/-- The services keep tokens as they should. A token is new when it is issued, and pending. -/
structure Host.Lawful (host : Host W) (tokens : W → Nat → Option Token) : Prop where
  mints : host.Mints
  notes : ∀ n w, ∃ w', host.note n w = (.ok (), w')
  issues : ∀ action w, ∃ token w' t, host.issue action w = (.ok token, w') ∧
    tokens w token = none ∧ tokens w' token = some t ∧ t.action = action ∧ t.outcome = none
  reads : ∀ token w, host.outcome token w = (.ok ((tokens w token).bind (·.outcome)), w)

end OneShot
