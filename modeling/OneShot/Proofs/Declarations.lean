import OneShot.Proofs.Linearisations

/-!
# What a class body declares

The lines of a class body are taken up one by one. A name keeps the place where it first comes up
and holds what it was given last, so what a class declares can be read off its body.
-/

namespace OneShot

namespace Spec

/-- The names that a class body annotates. -/
def annotated : List Declaration → List String
  | [] => []
  | .annotated name :: body => name :: annotated body
  | .attribute _ :: body => annotated body

/-- The names that a class body gives a content. -/
def defined : List Declaration → List String
  | [] => []
  | .annotated _ :: body => defined body
  | .attribute a :: body => a.name :: defined body

/-- What a name holds at the end of a class body. -/
def held? (body : List Declaration) (name : String) : Option Content :=
  body.reverse.findSome? fun
    | .annotated _ => none
    | .attribute a => if a.name = name then some a.content else none

/-- A class body annotates the name, or leaves a function under it. -/
def Offers (body : List Declaration) (name : String) : Prop :=
  name ∈ annotated body ∨ (held? body name).any Content.isFunction = true

/-- One name comes up before another one, with all annotations before all definitions. -/
def Leads (body : List Declaration) (x y : String) : Prop :=
  Earlier (annotated body ++ defined body) x y

section

variable {attributes : List Attribute} {a : Attribute} {body more : List Declaration}

theorem annotated_append : annotated (body ++ more) = annotated body ++ annotated more := by
  fun_induction annotated body <;> simp_all [annotated]

theorem defined_append : defined (body ++ more) = defined body ++ defined more := by
  fun_induction defined body <;> simp_all [defined]

theorem setAttribute_names :
    (setAttribute a attributes).map (·.name) = addName (attributes.map (·.name)) a.name := by
  induction attributes with
  | nil => rfl
  | cons b rest ih =>
    unfold setAttribute
    split
    · rename_i same
      simp [addName, same]
    · rename_i other
      rw [List.map_cons, ih]
      unfold addName
      simp only [List.map_cons, List.contains_cons, beq_eq_false_iff_ne.mpr (Ne.symm other),
        Bool.false_or]
      split <;> rfl

theorem find?_setAttribute (name : String) :
    (setAttribute a attributes).find? (fun b => b.name = name) =
      if a.name = name then some a else attributes.find? fun b => b.name = name := by
  induction attributes with
  | nil => simp [setAttribute, List.find?_cons]; split <;> simp_all
  | cons b rest ih =>
    unfold setAttribute
    split
    · rename_i same
      by_cases h : a.name = name <;> simp [h, same]
    · rename_i other
      rw [List.find?_cons, List.find?_cons, ih]
      by_cases h : b.name = name <;> by_cases h' : a.name = name <;> simp_all

theorem held?_append {name : String} (new : name ∉ defined more) :
    held? (body ++ more) name = held? body name := by
  have nothing : more.reverse.findSome? (fun
      | .annotated _ => none
      | .attribute a => if a.name = name then some a.content else none) = none := by
    rw [List.findSome?_eq_none_iff]
    intro line mem
    rw [List.mem_reverse] at mem
    fun_induction defined more <;> grind
  rw [held?, List.reverse_append, List.findSome?_append, nothing]
  rfl

section

variable {x y : String} (unmarked : annotated more = []) (new : x ∉ defined more)

include unmarked new

theorem offers_append : Offers (body ++ more) x ↔ Offers body x := by
  rw [Offers, Offers, annotated_append, unmarked, List.append_nil, held?_append new]

theorem Leads.of_append (h : Leads (body ++ more) x y) : Leads body x y := by
  rw [Leads, annotated_append, unmarked, List.append_nil, defined_append, ← List.append_assoc] at h
  obtain own | ⟨-, -, later⟩ := Earlier.of_append h
  · exact own
  · exact absurd later.mem new

end

end

end Spec

namespace SpecClass

open Spec

variable {c : SpecClass} {body : List Declaration}

theorem declare_place (line : Declaration) :
    (c.declare line).linearisation = c.linearisation ∧ (c.declare line).isSpec = c.isSpec := by
  unfold declare
  split
  · split <;> exact ⟨rfl, rfl⟩
  · exact ⟨rfl, rfl⟩

theorem body_place :
    (body.foldl declare c).linearisation = c.linearisation ∧
      (body.foldl declare c).isSpec = c.isSpec := by
  induction body generalizing c with
  | nil => exact ⟨rfl, rfl⟩
  | cons line body ih =>
    obtain ⟨order, derives⟩ := declare_place (c := c) line
    rw [List.foldl_cons, ← order, ← derives]
    exact ih

variable (c body) in
theorem body_annotations :
    (body.foldl declare c).annotations = (annotated body).foldl addName c.annotations := by
  fun_induction annotated body generalizing c with
  | case1 => rfl
  | case2 name body ih =>
    rw [List.foldl_cons, ih, List.foldl_cons, declare, addName]
    split <;> rfl
  | case3 a body ih => exact ih _

variable (c body) in
theorem body_attributes :
    (body.foldl declare c).attributes.map (·.name) =
      (defined body).foldl addName (c.attributes.map (·.name)) := by
  fun_induction defined body generalizing c with
  | case1 => rfl
  | case2 name body ih =>
    rw [List.foldl_cons, ih, declare]
    split <;> rfl
  | case3 a body ih => rw [List.foldl_cons, ih, List.foldl_cons, declare, setAttribute_names]

theorem body_content? (bare : c.attributes = []) (name : String) :
    (body.foldl declare c).content? name = held? body name := by
  induction body using List.reverseRecOn with
  | nil => simp [content?, bare, held?]
  | append_singleton body line ih =>
    rw [List.foldl_append, List.foldl_cons, List.foldl_nil]
    simp only [held?, List.reverse_append, List.reverse_singleton, List.singleton_append,
      List.findSome?_cons] at ih ⊢
    unfold declare
    split
    · split <;> exact ih
    · simp only [content?, find?_setAttribute] at ih ⊢
      split
      · rfl
      · exact ih

theorem setEffectName_body (name : Value) :
    (body.foldl declare c).setEffectName name =
      (body ++ [Declaration.attribute ⟨effectNameAttribute, .constant name⟩]).foldl declare c := by
  rw [List.foldl_append]
  rfl

theorem functions_eq (once : (c.attributes.map (·.name)).Nodup) :
    c.functions = (c.attributes.map (·.name)).filter fun name =>
      (c.content? name).any Content.isFunction := by
  rw [functions, List.filter_map]
  refine congrArg (List.map _) (List.filter_congr fun a mem => ?_)
  have found : c.attributes.find? (fun b => b.name = a.name) = some a := by
    obtain ⟨before, after, split⟩ := List.append_of_mem mem
    rw [split, List.map_append, List.map_cons] at once
    rw [split, List.find?_append, List.find?_eq_none.mpr]
    · simp
    · intro b there same
      have apart := (List.nodup_append.mp once).2.2
      exact apart b.name (List.mem_map_of_mem there) a.name List.mem_cons_self
        (by simpa using same)
  simp only [Function.comp_apply, content?, found, Option.map_some, Option.any_some]

section

variable (unmarked : c.annotations = []) (bare : c.attributes = [])

include bare

theorem mem_body_functions {name : String} :
    name ∈ (body.foldl declare c).functions ↔
      (held? body name).any Content.isFunction = true := by
  have names := body_attributes c body
  rw [bare, List.map_nil] at names
  rw [functions_eq (names ▸ nodup_addNames .nil), names, List.mem_filter, mem_addNames,
    body_content? bare]
  refine and_iff_right_of_imp fun is_function => .inr ?_
  by_contra absent
  have unheld : held? ([] ++ body) name = held? [] name := held?_append absent
  rw [List.nil_append] at unheld
  rw [unheld] at is_function
  cases is_function

include unmarked

/-- What a class declares, read off its body. -/
theorem mem_body_declared {name : String} :
    name ∈ (body.foldl declare c).declared ↔
      c.isSpec = true ∧ isPublic name = true ∧ Offers body name := by
  have annotations := body_annotations c body
  rw [unmarked] at annotations
  rw [declared, body_place.2]
  split
  · rename_i derives
    simp only [List.mem_filter, List.mem_append, mem_body_functions bare, annotations, mem_addNames,
      List.not_mem_nil, false_or, derives, Offers, true_and]
    exact and_comm
  · rename_i plain
    simp [plain]

/-- The order in which a class declares its operations, read off its body. -/
theorem body_leads {x y : String} (later : y ∈ (body.foldl declare c).declared)
    (h : Earlier (body.foldl declare c).declared x y) : Leads body x y := by
  have annotations := body_annotations c body
  have names := body_attributes c body
  rw [unmarked] at annotations
  rw [bare, List.map_nil] at names
  rw [declared] at later h
  split at h
  · rename_i derives
    rw [if_pos derives] at later
    obtain ⟨listed, shown⟩ := List.mem_filter.mp later
    obtain marked | ⟨first, other, own⟩ := (h.of_filter shown).of_append
    · rw [annotations] at marked
      exact marked.of_addNames.append _
    · have is_function := (List.mem_append.mp listed).resolve_left other
      rw [functions_eq (names ▸ nodup_addNames .nil)] at own is_function
      have ordered := own.of_filter (List.mem_filter.mp is_function).2
      rw [names] at ordered
      rw [annotations, mem_addNames, not_or] at first other
      exact ordered.of_addNames.after first.2 other.2
  · cases h.mem

end

end SpecClass

end OneShot
