import Std.Data.HashMap

/-!
# Multimaps

Any number of contents under each identity.
-/

namespace OneShot

structure Multimap (α : Type) where
  lists : Std.HashMap Nat (List α) := {}

namespace Multimap

variable {α : Type}

/-- The contents under an identity, the latest first. -/
def all (m : Multimap α) (id : Nat) : List α := m.lists[id]?.getD []

def add (m : Multimap α) (id : Nat) (contents : List α) : Multimap α :=
  if contents.isEmpty then m else ⟨m.lists.insert id (contents ++ m.all id)⟩

end Multimap

end OneShot
