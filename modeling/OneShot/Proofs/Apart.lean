import Mathlib.Data.List.Forall2
import OneShot.Proofs.Stack
import OneShot.Proofs.Surroundings

/-!
# Worlds apart

Two runs of a program can differ in what some mappings hold. As long as nothing else reads those
mappings, every computation of the world does the same in both runs. Neither the dispatch loop nor a
tracer reads a mapping.
-/

namespace OneShot.World

open Exec (Matches matches_pure matches_modify matches_alter)

variable {L : Language} {hidden : Nat → Prop}

/-! ## Worlds apart -/

/-- The world with other mappings and other events. -/
def swap (dicts : Pool (Assoc Value)) (events : List Event) (w : World L) : World L :=
  { w with dicts, events }

/-- What can differ between two runs: the contents of the hidden mappings, and the events, which
show what they hold. -/
def Apart (hidden : Nat → Prop) (w w' : World L) : Prop :=
  ∃ dicts events, w' = w.swap dicts events ∧ dicts.next = w.dicts.next ∧
    ∀ d, ¬ hidden d → w'.dict d = w.dict d

/-- The text of an error with this cause does not show what a hidden mapping holds. -/
def Plain (L : Language) (hidden : Nat → Prop) (cause : Cause Value) : Prop :=
  ∀ w w' : World L, Apart hidden w w' → w.argumentOf cause = w'.argumentOf cause

/-- The same error. Only a text that shows what a hidden mapping holds can differ. -/
structure SameError (L : Language) (hidden : Nat → Prop) (e e' : Error) : Prop where
  id : e.id = e'.id
  cause : e.cause = e'.cause
  text : Plain L hidden e.cause → e.argument = e'.argument

theorem SameError.kind {e e' : Error} (h : SameError L hidden e e') : e.kind = e'.kind :=
  congrArg Cause.kind h.cause

theorem Apart.refl (w : World L) : Apart hidden w w := ⟨w.dicts, w.events, rfl, rfl, fun _ _ => rfl⟩

theorem Apart.dict {w w' : World L} (h : Apart hidden w w') {d : Nat} (hd : ¬ hidden d) :
    w'.dict d = w.dict d := by
  obtain ⟨-, -, -, -, agree⟩ := h
  exact agree d hd

theorem Apart.mono {other : Nat → Prop} {w w' : World L} (h : Apart hidden w w')
    (more : ∀ d, hidden d → other d) : Apart other w w' := by
  obtain ⟨dicts, events, rfl, next, agree⟩ := h
  exact ⟨dicts, events, rfl, next, fun d hd => agree d fun h => hd (more d h)⟩

theorem Apart.eq {α : Type} {w w' : World L} (h : Apart hidden w w') (f : World L → α)
    (hf : ∀ dicts events, f (w.swap dicts events) = f w) : f w = f w' := by
  obtain ⟨dicts, events, rfl, -⟩ := h
  exact (hf dicts events).symm

theorem Apart.change {w w' : World L} (h : Apart hidden w w') (f : World L → World L)
    (hf : ∀ dicts events, f (w.swap dicts events) = (f w).swap dicts events)
    (same : (f w).dicts = w.dicts) : Apart hidden (f w) (f w') := by
  obtain ⟨dicts, events, rfl, next, agree⟩ := h
  refine ⟨dicts, events, hf dicts events, next.trans (congrArg Pool.next same).symm, fun d hd => ?_⟩
  rw [hf]
  simp only [World.dict, same]
  exact agree d hd

/-! ## Services -/

theorem blind_mint (cause : Cause Value) :
    Matches (Apart hidden) (SameError L hidden) (SameError L hidden)
      (mint cause : Exec (World L) Error) (mint cause) :=
  matches_alter fun w w' h =>
    ⟨⟨h.eq nextId fun _ _ => rfl, rfl, fun plain => plain w w' h⟩,
      h.change (fun w => (w.takeIds 1).2) (fun _ _ => rfl) rfl⟩

theorem blind_note (n : Note) :
    Matches (Apart hidden) (SameError L hidden) Eq (note n : Exec (World L) Unit) (note n) := by
  refine matches_modify fun w w' h => ?_
  obtain ⟨dicts, events, rfl, next, agree⟩ := h
  by_cases logging : w.logging
  · rw [if_pos logging, if_pos (show (w.swap dicts events).logging from logging)]
    exact ⟨dicts, _, rfl, next, agree⟩
  · rw [if_neg logging, if_neg (show ¬(w.swap dicts events).logging from logging)]
    exact ⟨dicts, events, rfl, next, agree⟩

theorem unnoticed_apart : Unnoticed (Apart (L := L) hidden) (SameError L hidden) where
  nextId h := h.eq _ fun _ _ => rfl
  tokens h := h.eq _ fun _ _ => rfl
  effects h := h.eq _ fun _ _ => rfl
  found h v name := h.eq (fun w => w.attribute? v name) fun _ _ => by
    unfold attribute?
    rfl
  missing h v name := h.eq (fun w => w.missingAttribute v name) fun _ _ => by
    unfold missingAttribute
    rfl
  setIds h nextId := h.change (fun w => { w with nextId }) (fun _ _ => rfl) rfl
  setTokens h tokens := h.change (fun w => { w with tokens }) (fun _ _ => rfl) rfl
  setEffects h effects := h.change (fun w => { w with effects }) (fun _ _ => rfl) rfl
  note := blind_note
  mint := blind_mint

theorem alike_lifeCell (n : Nat) :
    Cell.Alike (Apart hidden) (lifeCell n : Cell (World L) (Life (Body L))) (lifeCell n) where
  get _ _ h := h.eq _ fun _ _ => rfl
  set life w _ h := by
    refine h.change _ (fun dicts events => ?_) ?_
    all_goals
      simp only [lifeCell, swap]
      cases w.computations.get? n <;> rfl

/-! ## The rest of the program -/

namespace Surroundings

/-- The rest of the program does the same in two runs, except to the hidden mappings. There it does
what it likes, and it reads nothing from them. -/
abbrev Twins (hidden : Nat → Prop) (bound : Nat) (s s' : Surroundings L) : Prop :=
  s.Alike (Apart hidden) (SameError L hidden) bound s'

variable {s s' : Surroundings L} {bound : Nat}

/-- The same turn. What the driver does in between differs in the hidden mappings. -/
structure SameTurn (hidden : Nat → Prop) (t t' : Turn (World L)) : Prop where
  place : t.place = t'.place
  value : t.value = t'.value
  change : ∀ w w', Apart hidden w w' → Apart hidden (t.change w) (t'.change w')

theorem Twins.turns (twins : Twins hidden bound s s') {turns turns' : List (Turn (World L))}
    (same : List.Forall₂ (SameTurn hidden) turns turns') :
    Matches (Apart hidden) (SameError L hidden) (List.Forall₂ (Sight.Matches (SameError L hidden)))
      (takeTurns (s.computation bound) id turns) (takeTurns (s'.computation bound) id turns') := by
  induction same with
  | nil => exact matches_pure .nil
  | @cons t t' turns turns' turn _ ih =>
    refine (matches_modify turn.change).next fun _ => ?_
    rw [← turn.place, ← turn.value]
    have driven := twins.computation unnoticed_apart SameError.kind (alike_lifeCell t.place) t.value
    refine driven.look.bind fun _ _ sight => ?_
    exact ih.bind fun _ _ seen => matches_pure (.cons sight seen)

end Surroundings

end OneShot.World
