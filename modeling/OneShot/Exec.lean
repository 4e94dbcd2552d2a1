import OneShot.Value

/-!
# Runs over a world

A run changes a world and ends in a result. The world is kept whichever way the run ends,
so what happened before an error is not undone.
-/

namespace OneShot

/-- How a run ends. `exhausted` means that the bound on its length was too small. -/
inductive Result (α : Type) where
  | ok (a : α)
  | raised (e : Error)
  | exhausted

/-- A run over the world `W` that gives an `α`. -/
def Exec (W α : Type) := W → Result α × W

namespace Exec

variable {W α β : Type}

protected def pure (a : α) : Exec W α := fun w => (.ok a, w)

protected def bind (x : Exec W α) (f : α → Exec W β) : Exec W β := fun w =>
  match x w with
  | (.ok a, w') => f a w'
  | (.raised e, w') => (.raised e, w')
  | (.exhausted, w') => (.exhausted, w')

instance : Monad (Exec W) where
  pure := Exec.pure
  bind := Exec.bind

theorem bind_ok {x : Exec W α} {f : α → Exec W β} {w w' : W} {a : α} (h : x w = (.ok a, w')) :
    (x >>= f) w = f a w' := by
  simp [Bind.bind, Exec.bind, h]

instance : LawfulMonad (Exec W) :=
  LawfulMonad.mk' (Exec W)
    (fun x => by
      funext w
      simp only [Functor.map, Exec.bind]
      rcases x w with ⟨r, w'⟩
      cases r <;> rfl)
    (fun _ _ => rfl)
    (fun x f g => by
      funext w
      simp only [Bind.bind, Exec.bind]
      rcases x w with ⟨r, w'⟩
      cases r <;> rfl)

def raise (e : Error) : Exec W α := fun w => (.raised e, w)

def exhausted : Exec W α := fun w => (.exhausted, w)

/-- Reads from the world. -/
def read (f : W → α) : Exec W α := fun w => (.ok (f w), w)

def modify (f : W → W) : Exec W Unit := fun w => (.ok (), f w)

/-- Changes the world and gives what the change returns. -/
def alter (f : W → α × W) : Exec W α := fun w => let (a, w') := f w; (.ok a, w')

/-- Makes the way in which `x` ends an ordinary result. -/
def attempt (x : Exec W α) : Exec W (Result α) := fun w => let (r, w') := x w; (.ok r, w')

/-- Goes on with `handler` if `x` raises. -/
def rescue (x : Exec W α) (handler : Error → Exec W α) : Exec W α := fun w =>
  match x w with
  | (.raised e, w') => handler e w'
  | ended => ended

end Exec

end OneShot
