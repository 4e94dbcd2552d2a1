import OneShot.World

/-!
# Programs

The meaning of the user code of a language: what its functions do when they are called, what its
tasks do when they are driven, and what it has given up.
-/

namespace OneShot

/-- What user code does in the world. -/
structure Program (L : Language) where
  call : Host (World L) → (bound : Nat) → L.Function → List Value → Exec (World L) Value
  advance : Host (World L) → (bound : Nat) → L.Task → Value → Exec (World L) (Move L.Task)
  /-- The computation that a suspended task is delegated to. -/
  delegate? : L.Task → Option Nat
  /-- Whether a variable or an evaluation in progress has this computation as its value. -/
  names : World L → Nat → Bool
  /-- Those of the computations that nothing holds any more. -/
  lost : World L → List Nat → List Nat

end OneShot
