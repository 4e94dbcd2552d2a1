import OneShot.Assoc
import OneShot.Host

/-!
# Reader

Read-only access to an environment. A local environment stands in front of the one around it:
a key that it does not have is asked of the surroundings.
-/

namespace OneShot.Reader

variable {W : Type}

/-- The content under a key. A value that cannot be a key is refused. -/
def find (host : Host W) (environment : Assoc Value) (key : Value) : Exec W (Option Value) :=
  if key.isKey then pure (environment.get? key) else host.fail (.refused key.keyRefusal)

/-- Answers from the environment. -/
def ask (host : Host W) (environment : Assoc Value) (key tactics : Value) : Exec W Unit := do
  match ← find host environment key with
  | some content => host.settle tactics (.resume content)
  | none => host.fail (.missingKey key)

/-- Answers from the overrides, and tells whether they have the key. -/
def askLocal (host : Host W) (overrides : Assoc Value) (key tactics : Value) : Exec W Bool := do
  match ← find host overrides key with
  | some content =>
    host.settle tactics (.resume content)
    return true
  | none => return false

/-- The names of the action that asks for a key. -/
def effectName : Value := .str "reader"

def askName : Value := .str "ask"

/-- Asks the surroundings and answers with what they answer. The flag tells whether the question
has been asked. -/
def askOuter (host : Host W) (question tactics : Value) : Bool → Value → Exec W (Move Bool)
  | false, _ => return .suspend question true
  | true, v => do
    host.settle tactics (.resume v)
    return .complete .nil

end OneShot.Reader
