import Mathlib.Logic.Function.Basic
import OneShot.Effects
import OneShot.Proofs.Bounds
import OneShot.Proofs.Declarations

/-!
# Operations of a hierarchy of classes

Classes are made one after another, each from a body and from bases that are there. The operations
of a class are those of the specifications along its order of search, the most basic one first.
-/

namespace OneShot.World

open Spec SpecClass

variable {L : Language} {w w' : World L}

/-- What is written down for a class. -/
structure ClassText where
  bases : List Nat
  body : List Declaration

/-- The world holds the base specification, which declares nothing, and the classes that are made
from the texts. -/
inductive Hierarchy : World L → (Nat → ClassText) → Prop
  | start {w : World L} {b : SpecClass} (first : w.classes.next = 0) (derives : b.isSpec = true)
      (silent : b.declared = []) (alone : b.linearisation = []) :
      Hierarchy (w.addClass b).2 fun _ => ⟨[], []⟩
  | declare {w w' : World L} {text : Nat → ClassText} {name home : String} {effectName : Value}
      {bases : List Nat} {body : List Declaration} {id : Nat} (h : Hierarchy w text)
      (known : ∀ base ∈ bases, (w.classes.get? base).isSome = true)
      (made : declareClass name home effectName bases body w = (.ok (.spec id), w')) :
      Hierarchy w' (Function.update text id ⟨bases, body⟩)
  | other {w w' : World L} {text : Nat → ClassText} (h : Hierarchy w text)
      (same : w'.classes = w.classes) : Hierarchy w' text

/-- The order of search of a class. -/
def searched (w : World L) (id : Nat) : List Nat :=
  ((w.classes.get? id).map (·.linearisation)).getD []

theorem searched_eq {id : Nat} {c : SpecClass} (known : w.classes.get? id = some c) :
    w.searched id = c.linearisation := by
  simp [searched, known]

/-- A class other than the base specification derives from it and lists the name in its body. -/
def Declares (w : World L) (text : Nat → ClassText) (id : Nat) (name : String) : Prop :=
  id ≠ baseSpec ∧ baseSpec ∈ w.searched id ∧ Offers (text id).body name

/-- The most basic class that declares one of two names declares the first one. If it declares both,
its body leads with the first one. -/
def Precedes (w : World L) (text : Nat → ClassText) (order : List Nat) (x y : String) : Prop :=
  ∃ front id basic, order = front ++ id :: basic ∧ Declares w text id x ∧
    (∀ k ∈ basic, ¬Declares w text k x ∧ ¬Declares w text k y) ∧
    (¬Declares w text id y ∨ Leads (text id).body x y)

/-! ## New classes -/

section

variable {c d : SpecClass} {id : Nat}

theorem addClass_fresh : (w.addClass c).2.classes.get? w.classes.next =
    some { c with linearisation := w.classes.next :: c.linearisation } :=
  Pool.get?_next _ _

theorem addClass_kept (there : w.classes.get? id = some d) :
    (w.addClass c).2.classes.get? id = some d :=
  (Pool.get?_add_of_lt _ _ (Pool.lt_next there)).trans there

theorem addClass_next : (w.addClass c).2.classes.next = w.classes.next + 1 :=
  Pool.next_add _ _

theorem addClass_cases (there : (w.addClass c).2.classes.get? id = some d) :
    w.classes.get? id = some d ∨
      id = w.classes.next ∧ d = { c with linearisation := w.classes.next :: c.linearisation } := by
  by_cases old : id < w.classes.next
  · exact .inl ((Pool.get?_add_of_lt _ _ old).symm.trans there)
  · have bound := addClass_next ▸ Pool.lt_next there
    obtain rfl : id = w.classes.next := by omega
    exact .inr ⟨rfl, Option.some.inj (there.symm.trans addClass_fresh)⟩

end

theorem fail_ne_ok {α : Type} {cause : Cause Value} {a : α} :
    (fail cause : Exec (World L) α) w ≠ (.ok a, w') := by
  intro h
  obtain ⟨e, w₁, -, raised⟩ := Exec.bind_eq_ok.mp h
  cases raised

theorem searchBases_ok {bases order : List Nat} (h : searchBases bases w = (.ok order, w')) :
    linearise bases w.searched = some order ∧ w' = w := by
  obtain ⟨found, w₁, looked, h⟩ := Exec.bind_eq_ok.mp h
  obtain ⟨linearised, rfl⟩ : Result.ok (linearise bases w.searched) = .ok found ∧ w = w₁ :=
    Prod.mk.inj looked
  cases found with
  | some l =>
    cases h
    exact ⟨Result.ok.inj linearised, rfl⟩
  | none =>
    obtain ⟨refusal, w₂, -, h⟩ := Exec.bind_eq_ok.mp h
    exact absurd h fail_ne_ok

theorem declareClass_ok {name home : String} {effectName v : Value} {bases : List Nat}
    {body : List Declaration}
    (made : declareClass name home effectName bases body w = (.ok v, w')) :
    ∃ order naming, linearise bases w.searched = some order ∧ annotated naming = [] ∧
      (∀ defines ∈ defined naming, defines = effectNameAttribute) ∧ v = .spec w.classes.next ∧
      w' = (w.addClass ((body ++ naming).foldl SpecClass.declare
        ⟨name, home, order.contains baseSpec, [], [], order⟩)).2 := by
  obtain ⟨order, w₁, searched, h⟩ := Exec.bind_eq_ok.mp made
  obtain ⟨linearised, rfl⟩ := searchBases_ok searched
  refine ⟨order, ?_⟩
  split at h
  · rw [nameByDefault, setEffectName_body] at h
    split at h
    · cases h
      exact ⟨_, linearised, rfl, by simp [defined], rfl, rfl⟩
    · cases h
      exact ⟨[], linearised, rfl, by simp [defined], rfl, by rw [List.append_nil]; rfl⟩
  · rw [setEffectName_body] at h
    split at h
    · cases h
      exact ⟨_, linearised, rfl, by simp [defined], rfl, rfl⟩
    · exact absurd h fail_ne_ok

/-! ## Known classes -/

/-- What holds of every class of a hierarchy. -/
structure Placed (w : World L) (text : Nat → ClassText) (id : Nat) (c : SpecClass) : Prop where
  closed : ∀ k ∈ c.linearisation,
    ∃ d, w.classes.get? k = some d ∧ d.linearisation ⊆ c.linearisation
  bases : ∀ base ∈ (text id).bases, base ∈ c.linearisation
  starts : ∃ rest, c.linearisation = id :: rest
  single : ∀ base, (text id).bases = [base] → c.linearisation = id :: w.searched base
  derives : c.isSpec = true ↔ baseSpec ∈ c.linearisation
  declares : ∀ name, name ∈ c.declared ↔
    id ≠ baseSpec ∧ c.isSpec = true ∧ isPublic name = true ∧ Offers (text id).body name
  leads : ∀ x y, y ∈ c.declared → Earlier c.declared x y → Leads (text id).body x y

theorem Placed.grown {text text' : Nat → ClassText} {id : Nat} {c : SpecClass}
    (h : Placed w text id c)
    (kept : ∀ k d, w.classes.get? k = some d → w'.classes.get? k = some d)
    (same : text' id = text id) : Placed w' text' id c where
  closed k mem := by
    obtain ⟨d, known, within⟩ := h.closed k mem
    exact ⟨d, kept k d known, within⟩
  bases := same ▸ h.bases
  starts := h.starts
  single base only := by
    rw [same] at only
    obtain ⟨d, known, -⟩ := h.closed base (h.bases base (by simp [only]))
    rw [h.single base only, searched_eq known, searched_eq (kept base d known)]
  derives := h.derives
  declares := same ▸ h.declares
  leads := same ▸ h.leads

theorem not_isPublic_effectName : isPublic effectNameAttribute = false := by decide +kernel

section

variable {c : SpecClass} {body naming : List Declaration} (none : c.annotations = [])
  (bare : c.attributes = []) (unmarked : annotated naming = [])
  (named : ∀ defines ∈ defined naming, defines = effectNameAttribute)

include named in
theorem hidden_of_public {name : String} (shown : isPublic name = true) :
    name ∉ defined naming := by
  intro mem
  rw [named name mem, not_isPublic_effectName] at shown
  cases shown

include none bare unmarked named

theorem mem_named_declared {name : String} :
    name ∈ ((body ++ naming).foldl SpecClass.declare c).declared ↔
      c.isSpec = true ∧ isPublic name = true ∧ Offers body name := by
  rw [mem_body_declared none bare]
  refine and_congr_right fun _ => and_congr_right fun shown => ?_
  exact offers_append unmarked (hidden_of_public named shown)

theorem named_leads {x y : String}
    (later : y ∈ ((body ++ naming).foldl SpecClass.declare c).declared)
    (h : Earlier ((body ++ naming).foldl SpecClass.declare c).declared x y) : Leads body x y := by
  have shown := ((mem_named_declared none bare unmarked named).mp h.mem).2.1
  exact (body_leads none bare later h).of_append unmarked (hidden_of_public named shown)

end

section

variable {text : Nat → ClassText} {bases order : List Nat}
  (placed : ∀ id c, w.classes.get? id = some c → Placed w text id c)
  (known : ∀ base ∈ bases, (w.classes.get? base).isSome = true)
  (linearised : linearise bases w.searched = some order)

include placed known linearised

theorem closed_order {k : Nat} (mem : k ∈ order) :
    ∃ d, w.classes.get? k = some d ∧ d.linearisation ⊆ order := by
  have within {base : Nat} {c : SpecClass} (listed : base ∈ bases)
      (there : w.classes.get? base = some c) : c.linearisation ⊆ order := fun j mem =>
    (mem_linearise linearised j).mpr (.inr ⟨base, listed, searched_eq there ▸ mem⟩)
  obtain listed | ⟨base, listed, mem⟩ := (mem_linearise linearised k).mp mem
  · obtain ⟨c, there⟩ := Option.isSome_iff_exists.mp (known k listed)
    exact ⟨c, there, within listed there⟩
  · obtain ⟨c, there⟩ := Option.isSome_iff_exists.mp (known base listed)
    obtain ⟨d, found, narrower⟩ := (placed base c there).closed k (searched_eq there ▸ mem)
    exact ⟨d, found, List.Subset.trans narrower (within listed there)⟩

theorem single_order {base : Nat} (only : bases = [base]) : order = w.searched base := by
  subst only
  obtain ⟨c, there⟩ := Option.isSome_iff_exists.mp (known base List.mem_cons_self)
  obtain ⟨rest, starts⟩ := (placed base c there).starts
  exact linearise_single ((searched_eq there).trans starts) linearised

end

/-- A class that is made keeps its place in the hierarchy. -/
theorem hierarchy_declare {text : Nat → ClassText} {bases order : List Nat} {name home : String}
    {body naming : List Declaration} {c : SpecClass}
    (placed : ∀ id c, w.classes.get? id = some c → Placed w text id c)
    (started : 0 < w.classes.next) (known : ∀ base ∈ bases, (w.classes.get? base).isSome = true)
    (linearised : linearise bases w.searched = some order) (unmarked : annotated naming = [])
    (named : ∀ defines ∈ defined naming, defines = effectNameAttribute)
    (made : c = (body ++ naming).foldl SpecClass.declare
      ⟨name, home, order.contains baseSpec, [], [], order⟩) {id : Nat} {d : SpecClass}
    (there : (w.addClass c).2.classes.get? id = some d) :
    Placed (w.addClass c).2 (Function.update text w.classes.next ⟨bases, body⟩) id d := by
  have own : c.linearisation = order := made ▸ body_place.1
  have derives : c.isSpec = order.contains baseSpec := made ▸ body_place.2
  have apart : w.classes.next ≠ baseSpec := Nat.ne_of_gt started
  -- The older classes keep their places, since a new one changes no order. The new one gets its
  -- place from its body and from the merged order.
  obtain before | ⟨rfl, rfl⟩ := addClass_cases there
  · exact (placed id d before).grown (fun _ _ => addClass_kept)
      (Function.update_of_ne (Nat.ne_of_lt (Pool.lt_next before)) _ _)
  refine {
    closed := ?closed, bases := ?bases, starts := ⟨_, rfl⟩, single := ?single, derives := ?derives,
    declares := ?declares, leads := ?leads }
  all_goals simp only [Function.update_self, own]
  case closed =>
    rintro k (_ | ⟨_, mem⟩)
    · exact ⟨_, addClass_fresh, by simp [own]⟩
    · obtain ⟨d, found, within⟩ := closed_order placed known linearised mem
      exact ⟨d, addClass_kept found, List.subset_cons_of_subset _ within⟩
  case bases =>
    exact fun base mem => List.mem_cons_of_mem _ ((mem_linearise linearised base).mpr (.inl mem))
  case single =>
    intro base only
    obtain ⟨d, found⟩ := Option.isSome_iff_exists.mp (known base (by simp [only]))
    rw [single_order placed known linearised only, searched_eq found,
      searched_eq (addClass_kept found)]
  case derives =>
    rw [derives, List.contains_iff_mem, List.mem_cons]
    exact (or_iff_right apart.symm).symm
  case declares =>
    intro x
    have declared : x ∈ c.declared ↔
        order.contains baseSpec = true ∧ isPublic x = true ∧ Offers body x :=
      made ▸ mem_named_declared rfl rfl unmarked named
    rw [← derives] at declared
    exact declared.trans (and_iff_right apart).symm
  case leads =>
    intro x y later ordered
    subst made
    exact named_leads rfl rfl unmarked named later ordered

/-- Every class of a hierarchy has its place. -/
theorem Hierarchy.placed {text : Nat → ClassText} (h : Hierarchy w text) :
    0 < w.classes.next ∧ ∀ id c, w.classes.get? id = some c → Placed w text id c := by
  induction h with
  | @start w b first derives silent alone =>
    refine ⟨by simp [addClass_next], fun id c there => ?_⟩
    obtain before | ⟨rfl, rfl⟩ := addClass_cases there
    · exact absurd (Pool.lt_next before) (by simp [first])
    have nothing (x : String) : x ∉ b.declared := by simp [silent]
    exact {
      closed := by
        rintro k mem
        rw [alone, List.mem_singleton] at mem
        subst mem
        exact ⟨_, addClass_fresh, List.Subset.refl _⟩
      bases := by simp
      starts := ⟨_, rfl⟩
      single := by simp
      derives := by simp [derives, first, baseSpec]
      declares := fun x => iff_of_false (nothing x) fun h => h.1 first
      leads := fun x y later => absurd later (nothing y) }
  | declare h known made ih =>
    obtain ⟨started, placed⟩ := ih
    obtain ⟨order, naming, linearised, unmarked, named, same, rfl⟩ := declareClass_ok made
    obtain rfl := Value.spec.inj same
    exact ⟨by simp [addClass_next], fun id c there =>
      hierarchy_declare placed started known linearised unmarked named rfl there⟩
  | other h same ih =>
    obtain ⟨started, placed⟩ := ih
    rw [same]
    exact ⟨started, fun id c there =>
      (placed id c there).grown (fun k d found => same ▸ found) rfl⟩

/-! ## Along the order of search -/

/-- The operations that a class declares itself. -/
def declaredBy (w : World L) (id : Nat) : List String :=
  ((w.classes.get? id).map declared).getD []

theorem operations_eq (id : Nat) :
    operations ((w.linearisation id).map (·.2)) =
      ((w.searched id).reverse.flatMap w.declaredBy).foldl addName [] := by
  have along (order : List Nat) :
      ((order.filterMap fun k => (w.classes.get? k).map fun c => (k, c)).map (·.2)).reverse.flatMap
        declared = order.reverse.flatMap w.declaredBy := by
    induction order with
    | nil => rfl
    | cons k order ih =>
      cases found : w.classes.get? k with
      | none => simp [found, ih, declaredBy]
      | some c => simp [found, ih, declaredBy]
  rw [operations, ← along, linearisation, searched]
  cases w.classes.get? id <;> rfl

section

variable {text : Nat → ClassText} (h : Hierarchy w text)

include h

theorem mem_declaredBy {k : Nat} {name : String} :
    name ∈ w.declaredBy k ↔ isPublic name = true ∧ Declares w text k name := by
  cases found : w.classes.get? k with
  | none => simp [declaredBy, Declares, searched, found]
  | some c =>
    have placed := h.placed.2 k c found
    rw [Declares, searched_eq found, ← placed.derives, declaredBy, found, Option.map_some,
      Option.getD_some, placed.declares]
    tauto

theorem mem_operations {order : List Nat} {name : String} :
    name ∈ (order.reverse.flatMap w.declaredBy).foldl addName [] ↔
      isPublic name = true ∧ ∃ k ∈ order, Declares w text k name := by
  simp only [mem_addNames, List.not_mem_nil, false_or, List.mem_flatMap, List.mem_reverse,
    mem_declaredBy h]
  tauto

theorem precedes_of_earlier {order : List Nat} {x y : String} (shown : isPublic y = true)
    (ordered : Earlier (order.reverse.flatMap w.declaredBy) x y) : Precedes w text order x y := by
  obtain ⟨basic, k, front, split, own, none, rest⟩ := ordered.of_flatMap
  rw [← List.reverse_inj, List.reverse_reverse] at split
  have shown_x := ((mem_declaredBy h).mp own).1
  refine ⟨front.reverse, k, basic.reverse, by simpa using split, ((mem_declaredBy h).mp own).2,
    fun j mem => ?_, ?_⟩
  · obtain ⟨first, other⟩ := none j (List.mem_reverse.mp mem)
    exact ⟨fun declares => first ((mem_declaredBy h).mpr ⟨shown_x, declares⟩),
      fun declares => other ((mem_declaredBy h).mpr ⟨shown, declares⟩)⟩
  · by_cases declares : y ∈ w.declaredBy k
    · refine .inr ?_
      cases found : w.classes.get? k with
      | none => simp [declaredBy, found] at own
      | some c =>
        have same : w.declaredBy k = c.declared := by simp [declaredBy, found]
        rw [same] at rest declares
        exact (h.placed.2 k c found).leads x y declares (rest.resolve_left (not_not_intro declares))
    · exact .inl fun also => declares ((mem_declaredBy h).mpr ⟨shown, also⟩)

end

/-- The operations of a specification are the public names that the specifications along its order
of search declare, the most basic one first. Those of its bases are among them, and those of a
single base come first. -/
theorem operations_along_order {text : Nat → ClassText} (h : Hierarchy w text) {id : Nat}
    (derives : baseSpec ∈ w.searched id) :
    ∃ names, operationsOf (.spec id) w = (.ok names, w) ∧ names.Nodup ∧
      (∀ name, name ∈ names ↔
        isPublic name = true ∧ ∃ k ∈ w.searched id, Declares w text k name) ∧
      names.Pairwise (Precedes w text (w.searched id)) ∧
      ∀ base ∈ (text id).bases, ∃ inherited, operationsOf (.spec base) w = (.ok inherited, w) ∧
        inherited ⊆ names ∧ ((text id).bases = [base] → inherited <+: names) := by
  have computed (k : Nat) : operationsOf (.spec k) w =
      (.ok (((w.searched k).reverse.flatMap w.declaredBy).foldl addName []), w) :=
    congrArg (fun names => (Result.ok names, w)) (operations_eq k)
  refine ⟨_, computed id, nodup_addNames .nil, fun name => mem_operations h, ?_, ?_⟩
  · exact (earlier_addNames _).imp_of_mem fun _ later =>
      precedes_of_earlier h ((mem_operations h).mp later).1
  · intro base mem
    cases there : w.classes.get? id with
    | none => simp [searched, there] at derives
    | some c =>
      have placed := h.placed.2 id c there
      obtain ⟨d, found, within⟩ := placed.closed base (placed.bases base mem)
      refine ⟨_, computed base, fun name inherited => ?_, fun only => ?_⟩
      · obtain ⟨shown, k, below, declares⟩ := (mem_operations h).mp inherited
        rw [searched_eq found] at below
        exact (mem_operations h).mpr ⟨shown, k, searched_eq there ▸ within below, declares⟩
      · rw [searched_eq there, placed.single base only, List.reverse_cons, List.flatMap_append,
          List.foldl_append]
        exact prefix_addNames

/-! A store, a plain class, and a shop that derives from both and hides one of the operations. -/

def storeText : ClassText := ⟨[baseSpec], [.attribute ⟨"put", .method 3⟩, .annotated "get"]⟩

def mixinText : ClassText := ⟨[], [.attribute ⟨"helper", .method 1⟩]⟩

def shopText : ClassText := ⟨[2, 1], [.attribute ⟨"get", .staticMethod⟩, .annotated "price"]⟩

def shopBase : World ⟨Unit, Unit, Unit⟩ :=
  (addClass (SpecClass.setEffectName ⟨"Spec", "", true, [], [], []⟩ (.str "")) { memory := () }).2

def withClass (name : String) (t : ClassText) (w : World ⟨Unit, Unit, Unit⟩) :
    World ⟨Unit, Unit, Unit⟩ :=
  (declareClass name "" .nil t.bases t.body w).2

theorem Hierarchy.withClass {w : World ⟨Unit, Unit, Unit⟩} {text : Nat → ClassText}
    (h : Hierarchy w text) (name : String) (t : ClassText) (id : Nat)
    (known : ∀ base ∈ t.bases, (w.classes.get? base).isSome = true)
    (made : (declareClass name "" .nil t.bases t.body w).1 = .ok (.spec id)) :
    Hierarchy (withClass name t w) (Function.update text id t) :=
  h.declare known (Prod.ext made rfl)

def shopClasses : World ⟨Unit, Unit, Unit⟩ :=
  withClass "Shop" shopText (withClass "Mixin" mixinText (withClass "Store" storeText shopBase))

def shopTexts : Nat → ClassText :=
  Function.update (Function.update (Function.update (fun _ => ⟨[], []⟩) 1 storeText) 2 mixinText) 3
    shopText

theorem operations_along_order_shop :
    Hierarchy shopClasses shopTexts ∧ baseSpec ∈ shopClasses.searched 3 ∧
      operationsOf (.spec 3) shopClasses = (.ok ["get", "put", "price"], shopClasses) ∧
      ["get", "put", "price"].Pairwise (Precedes shopClasses shopTexts [3, 2, 1, 0]) := by
  have base : Hierarchy shopBase fun _ => ⟨[], []⟩ := .start rfl rfl (by decide +kernel) rfl
  have store := base.withClass "Store" storeText 1 (by decide +kernel) rfl
  have mixin := store.withClass "Mixin" mixinText 2 (by decide +kernel) rfl
  have hierarchy : Hierarchy shopClasses shopTexts :=
    mixin.withClass "Shop" shopText 3 (by decide +kernel) rfl
  have derives : baseSpec ∈ shopClasses.searched 3 := by decide +kernel
  have names : Spec.operations ((shopClasses.linearisation 3).map (·.2)) =
      ["get", "put", "price"] := by decide +kernel
  have computed : operationsOf (.spec 3) shopClasses =
      (.ok ["get", "put", "price"], shopClasses) :=
    congrArg (fun names => (Result.ok names, shopClasses)) names
  obtain ⟨names, found, -, -, ordered, -⟩ := operations_along_order hierarchy derives
  obtain rfl := Result.ok.inj (congrArg Prod.fst (computed.symm.trans found))
  exact ⟨hierarchy, derives, computed, ordered⟩

end OneShot.World
