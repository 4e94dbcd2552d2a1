import OneShot.Exec

/-!
# Bounds

The loops of a run have a bound. A run that ends within a bound ends in the same way within every
larger one, so we can say how it ends without naming a bound.
-/

namespace OneShot

def Result.map {α β : Type} (f : α → β) : Result α → Result β
  | .ok a => .ok (f a)
  | .raised e => .raised e
  | .exhausted => .exhausted

/-- The result of a run that has ended. -/
def Result.of {α : Type} : Except Error α → Result α
  | .ok a => .ok a
  | .error e => .raised e

@[simp] theorem Result.of_ok {α : Type} (a : α) : Result.of (.ok a) = .ok a := rfl

@[simp] theorem Result.of_error {α : Type} (e : Error) :
    (Result.of (.error e) : Result α) = .raised e := rfl

theorem Result.of_ne_exhausted {α : Type} (o : Except Error α) : Result.of o ≠ .exhausted := by
  cases o <;> simp [Result.of]

theorem Result.of_inj {α : Type} {o p : Except Error α} : Result.of o = Result.of p ↔ o = p := by
  cases o <;> cases p <;> simp [Result.of]

theorem Result.exhausted_or_of {α : Type} (r : Result α) : r = .exhausted ∨ ∃ o, r = .of o := by
  cases r with
  | ok a => exact Or.inr ⟨.ok a, rfl⟩
  | raised e => exact Or.inr ⟨.error e, rfl⟩
  | exhausted => exact Or.inl rfl

namespace Exec

variable {W α β : Type}

/-! ## Runs that end -/

theorem pure_apply (a : α) (w : W) : (pure a : Exec W α) w = (.ok a, w) := rfl

theorem read_apply (f : W → α) (w : W) : read f w = (.ok (f w), w) := rfl

theorem pure_eq_of {a : α} {w w' : W} {o : Except Error α} :
    (pure a : Exec W α) w = (.of o, w') ↔ o = .ok a ∧ w' = w := by
  rw [pure_apply, ← Result.of_ok, Prod.mk.injEq, Result.of_inj, eq_comm, @eq_comm W]

theorem bind_eq_of {x : Exec W α} {f : α → Exec W β} {w w' : W} {o : Except Error β} :
    (x >>= f) w = (.of o, w') ↔
      (∃ e, o = .error e ∧ x w = (.raised e, w')) ∨
      ∃ a w₁, x w = (.ok a, w₁) ∧ f a w₁ = (.of o, w') := by
  simp only [Bind.bind, Exec.bind]
  rcases x w with ⟨r, w₁⟩
  cases r with
  | ok a => simp [and_assoc]
  | raised e =>
    cases o with
    | ok b => simp
    | error e' => simp [Result.of, eq_comm]
  | exhausted =>
    have := (Result.of_ne_exhausted o).symm
    simp [this]

theorem bind_eq_ok {x : Exec W α} {f : α → Exec W β} {w w' : W} {b : β} :
    (x >>= f) w = (.ok b, w') ↔ ∃ a w₁, x w = (.ok a, w₁) ∧ f a w₁ = (.ok b, w') := by
  simpa using bind_eq_of (o := .ok b)

theorem bind_raised {x : Exec W α} {f : α → Exec W β} {w w' : W} {e : Error}
    (h : x w = (.raised e, w')) : (x >>= f) w = (.raised e, w') := by
  simp [Bind.bind, Exec.bind, h]

theorem bind_exhausted {x : Exec W α} {f : α → Exec W β} {w w' : W}
    (h : x w = (.exhausted, w')) : (x >>= f) w = (.exhausted, w') := by
  simp [Bind.bind, Exec.bind, h]

theorem bind_of {x : Exec W α} {f : α → β} {w w' : W} {o : Except Error α}
    (h : x w = (.of o, w')) : (do return f (← x)) w = (.of (o.map f), w') := by
  cases o with
  | ok a => exact bind_ok h
  | error e => exact bind_raised h

/-! ## Some bound -/

/-- The run ends this way within some bound. -/
def Ends (x : Nat → Exec W α) (w : W) (o : Except Error α) (w' : W) : Prop :=
  ∃ bound, x bound w = (.of o, w')

/-- What ends within a bound ends in the same way within a larger one. -/
def Growing (x : Nat → Exec W α) : Prop :=
  ∀ ⦃b b' w o w'⦄, b ≤ b' → x b w = (.of o, w') → x b' w = (.of o, w')

theorem growing_const (x : Exec W α) : Growing fun _ => x := fun _ _ _ _ _ _ h => h

theorem ends_const {x : Exec W α} {w w' : W} {o : Except Error α} :
    Ends (fun _ => x) w o w' ↔ x w = (.of o, w') :=
  ⟨fun ⟨_, h⟩ => h, fun h => ⟨0, h⟩⟩

theorem Growing.bind {x : Nat → Exec W α} {f : Nat → α → Exec W β} (hx : Growing x)
    (hf : ∀ a, Growing (f · a)) : Growing fun b => x b >>= f b := by
  intro b b' w o w' hb h
  rw [bind_eq_of] at h ⊢
  rcases h with ⟨e, rfl, h⟩ | ⟨a, w₁, h, h'⟩
  · exact Or.inl ⟨e, rfl, hx hb (o := .error e) h⟩
  · exact Or.inr ⟨a, w₁, hx hb (o := .ok a) h, hf a hb h'⟩

theorem ends_bind {x : Nat → Exec W α} {f : Nat → α → Exec W β} (hx : Growing x)
    (hf : ∀ a, Growing (f · a)) {w w' : W} {o : Except Error β} :
    Ends (fun b => x b >>= f b) w o w' ↔
      (∃ e, o = .error e ∧ Ends x w (.error e) w') ∨
      ∃ a w₁, Ends x w (.ok a) w₁ ∧ Ends (f · a) w₁ o w' := by
  constructor
  · rintro ⟨b, h⟩
    rw [bind_eq_of] at h
    rcases h with ⟨e, rfl, h⟩ | ⟨a, w₁, h, h'⟩
    · exact Or.inl ⟨e, rfl, b, h⟩
    · exact Or.inr ⟨a, w₁, ⟨b, h⟩, b, h'⟩
  · rintro (⟨e, rfl, b, h⟩ | ⟨a, w₁, ⟨b, h⟩, b', h'⟩)
    · exact ⟨b, bind_eq_of.mpr (Or.inl ⟨e, rfl, h⟩)⟩
    · refine ⟨max b b', bind_eq_of.mpr (Or.inr ⟨a, w₁, ?_, ?_⟩)⟩
      · exact hx (Nat.le_max_left b b') (o := .ok a) h
      · exact hf a (Nat.le_max_right b b') h'

theorem ends_map {x : Nat → Exec W α} (g : α → β) {w w' : W} {o : Except Error β} :
    Ends (fun b => do return g (← x b)) w o w' ↔ ∃ o₁, o = o₁.map g ∧ Ends x w o₁ w' := by
  simp only [Ends, bind_eq_of]
  constructor
  · rintro ⟨b, ⟨e, rfl, h⟩ | ⟨a, w₁, h, done⟩⟩
    · exact ⟨.error e, rfl, b, h⟩
    · obtain ⟨hresult, rfl⟩ := Prod.mk.inj done
      obtain rfl : .ok (g a) = o := Result.of_inj.mp hresult
      exact ⟨.ok a, rfl, b, h⟩
  · rintro ⟨e | a, rfl, b, h⟩
    · exact ⟨b, Or.inl ⟨e, rfl, h⟩⟩
    · exact ⟨b, Or.inr ⟨a, w', h, rfl⟩⟩

theorem Growing.unique {x : Nat → Exec W α} (hx : Growing x) {w w₁ w₂ : W}
    {o₁ o₂ : Except Error α} (h₁ : Ends x w o₁ w₁) (h₂ : Ends x w o₂ w₂) : o₁ = o₂ ∧ w₁ = w₂ := by
  obtain ⟨b₁, h₁⟩ := h₁
  obtain ⟨b₂, h₂⟩ := h₂
  have h₁ := hx (Nat.le_max_left b₁ b₂) h₁
  have h₂ := hx (Nat.le_max_right b₁ b₂) h₂
  rw [h₁] at h₂
  simpa [Result.of_inj] using h₂

end Exec

end OneShot
