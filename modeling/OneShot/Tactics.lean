import OneShot.Value

/-!
# Tactics

A handler decides about its action through a token. The token takes one decision and keeps it.
-/

namespace OneShot

/-- What a handler decides about its action. -/
inductive Outcome where
  | resume (value : Value)
  | abort (value : Value)

namespace Outcome

/-- The decision as a value with the given identity. -/
def toValue (id : Nat) : Outcome → Value
  | .resume v => .resume id v
  | .abort v => .abort id v

/-- The name of the method that takes the decision. -/
def methodName : Outcome → String
  | .resume _ => "resume"
  | .abort _ => "abort"

/-- The value that the decision carries. -/
def value : Outcome → Value
  | .resume v => v
  | .abort v => v

end Outcome

/-- The token of one action. The identity `id` is for its decision as a value. -/
structure Token where
  action : Value
  id : Nat
  outcome : Option Outcome

namespace Token

def pending (action : Value) (id : Nat) : Token := ⟨action, id, none⟩

/-- The decision as a value, or nothing. -/
def outcomeValue (t : Token) : Value := (t.outcome.map (Outcome.toValue t.id)).getD .nil

def isSettled (t : Token) : Bool := t.outcome.isSome

/-- Records the decision. A token that has one already refuses. -/
def settle? (t : Token) (o : Outcome) : Option Token :=
  match t.outcome with
  | none => some { t with outcome := some o }
  | some _ => none

/-- The reason given when a token is settled again. -/
def settledTwice : String := "cannot call handle tactics more than once"

/-- The reason given when a handler ends and its token is pending. -/
def neverSettled : String := "Effect handlers must call handle tactics"

end Token

end OneShot
