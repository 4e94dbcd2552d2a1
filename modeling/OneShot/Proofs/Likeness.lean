import OneShot.Proofs.Namespaces

/-!
# Effects that are alike

Two effects are alike if they have the same name, the same operations and the same openness. Only
the identities of their creators tell them apart. Whatever is asked of the one and of the other,
they stay alike.
-/

namespace OneShot

namespace Assoc

variable {α β : Type}

theorem fst_entry? (m : Assoc α) (k : Value) :
    (m.entry? k).map Prod.fst = m.keys.find? fun known => known.same k := by
  rw [keys, List.find?_map]
  rfl

end Assoc

namespace Namespace

/-- The same but for the identities of the creators. -/
structure Alike (n m : Namespace) : Prop where
  name : n.name = m.name
  operations : n.operations = m.operations
  isOpen : n.isOpen = m.isOpen

/-- Both give something, in the relation `R`, or both fail for the same reason. -/
inductive Likewise {α β : Type} (R : α → β → Prop) :
    Except (Cause Value) α → Except (Cause Value) β → Prop where
  | ok {a : α} {b : β} (h : R a b) : Likewise R (.ok a) (.ok b)
  | error (cause : Cause Value) : Likewise R (.error cause) (.error cause)

/-- Creators of the same actions, with effects that are alike. -/
def AlikeFound (found found' : Value × Namespace) : Prop :=
  found.2.Alike found'.2 ∧ ∃ id id' effect operation,
    found.1 = .creator id effect operation ∧ found'.1 = .creator id' effect operation

variable {n m : Namespace}

theorem Alike.lawful (h : n.Alike m) (lawful : n.Lawful) : m.Lawful :=
  ⟨h.operations ▸ lawful.keys, h.operations ▸ lawful.once⟩

theorem Alike.extend (h : n.Alike m) (o : Value) (id id' : Nat) :
    (n.extend o id).Alike (m.extend o id') where
  name := h.name
  operations := by rw [operations_extend, operations_extend, h.operations]
  isOpen := h.isOpen

/-! ## Look-ups -/

theorem Alike.entry? (h : n.Alike m) (o : Value) :
    (n.creators.entry? o).map Prod.fst = (m.creators.entry? o).map Prod.fst := by
  rw [Assoc.fst_entry?, Assoc.fst_entry?]
  exact congrArg (List.find? _) h.operations

theorem Alike.item (h : n.Alike m) (next next' : Nat) (o : Value) :
    Likewise AlikeFound (n.item next o) (m.item next' o) := by
  have same := h.entry? o
  unfold Namespace.item
  split
  · exact .error _
  cases found : n.creators.entry? o with
  | some e =>
    cases found' : m.creators.entry? o with
    | none => simp [found, found'] at same
    | some e' =>
      obtain ⟨name, id⟩ := e
      obtain ⟨name', id'⟩ := e'
      obtain rfl : name = name' := by simpa [found, found'] using same
      exact .ok ⟨h, id, id', .str n.name, name, rfl, by rw [h.name]; rfl⟩
  | none =>
    cases found' : m.creators.entry? o with
    | some e' => simp [found, found'] at same
    | none =>
      have new : n.creators.get? o = none := by rw [Assoc.get?, found]; rfl
      have new' : m.creators.get? o = none := by rw [Assoc.get?, found']; rfl
      simp only [Assoc.put_of_get?_none new, Assoc.put_of_get?_none new']
      by_cases isOpen : n.isOpen = true
      · rw [if_pos isOpen, if_pos (h.isOpen ▸ isOpen)]
        exact .ok ⟨h.extend o next next', next, next', .str n.name, o, rfl, by rw [h.name]; rfl⟩
      · rw [if_neg isOpen, if_neg (h.isOpen ▸ isOpen)]
        exact .error _

theorem Alike.named (h : n.Alike m) (next next' : Nat) (o : String) :
    Likewise AlikeFound (n.named next o) (m.named next' o) := by
  have items := h.item next next' (.str o)
  unfold Namespace.named
  split
  · exact .error _
  generalize n.item next (.str o) = r, m.item next' (.str o) = r' at items
  cases items with
  | ok found => exact .ok found
  | error cause =>
    simp only [h.operations, h.name]
    split <;> exact .error _

theorem Lawful.item (h : n.Lawful) {next : Nat} {o c : Value} (found : n.item next o = .ok (c, m)) :
    m.Lawful := by
  obtain rfl | ⟨key, new, -, rfl⟩ := item_eq_ok found
  · exact h
  · exact h.extend key new next

/-! ## Derivation -/

/-- Effects that are alike are derived alike. Only an empty name is refused. -/
theorem Alike.derive (h : n.Alike m) (lawful : n.Lawful) (name : String) (next next' : Nat) :
    Likewise Alike (n.derive (.str name) next) (m.derive (.str name) next') := by
  by_cases named : name = ""
  · subst named
    exact .error (.effectName (.str ""))
  · obtain ⟨d, derived, names, operations, isOpen⟩ := derive_of_lawful lawful named next
    obtain ⟨d', derived', names', operations', isOpen'⟩ :=
      derive_of_lawful (h.lawful lawful) named next'
    rw [derived, derived']
    exact .ok ⟨names.trans names'.symm, operations.trans (h.operations.trans operations'.symm),
      isOpen.trans (h.isOpen.trans isOpen'.symm)⟩

/-! ## Repeated names -/

theorem declare_repeated (known : List String) {names : List String}
    (operations : n.operations = known.map .str) (once : known.Nodup)
    (repeated : ¬(known ++ names).Nodup) (next : Nat) :
    ∃ o, n.declare next (names.map .str) = .error (.duplicate o n.name) := by
  induction names generalizing n known next with
  | nil => exact absurd once (by simpa using repeated)
  | cons o names ih =>
    rw [List.map_cons, declare]
    by_cases there : o ∈ known
    · have contains : n.contains (.str o) = true :=
        Assoc.contains_str.mpr (by rw [← Namespace.operations, operations]; simpa using there)
      refine ⟨.str o, ?_⟩
      simp only [add, World.State.isKey_str, contains]
      rfl
    · have new : n.creators.get? (.str o) = none :=
        Assoc.get?_str_eq_none.mpr (by rw [← Namespace.operations, operations]; simpa using there)
      rw [add_of_new (World.State.isKey_str o) new]
      refine ih (n := n.extend (.str o) next) (known ++ [o]) ?_ ?_ ?_ (next + 1)
      · rw [operations_extend, operations, List.map_append, List.map_singleton]
      · refine List.nodup_append.mpr ⟨once, List.pairwise_singleton _ o, ?_⟩
        rintro a known' b hb rfl
        exact there (List.mem_singleton.mp hb ▸ known')
      · rwa [List.append_assoc, List.singleton_append]

theorem create_repeated {name : String} (named : name ≠ "") {names : List String}
    (repeated : ¬names.Nodup) (next : Nat) :
    ∃ o, create (.str name) next (names.map .str) = .error (.duplicate o name) := by
  obtain ⟨o, fails⟩ := declare_repeated (n := ⟨name, [], false⟩) [] rfl .nil repeated next
  refine ⟨o, ?_⟩
  simp only [create, start_named named, bind, Except.bind, fails]

/-! ## How effects come about -/

theorem Making.named (h : Making n) : n.name ≠ "" := by
  induction h with
  | start h =>
    obtain ⟨s, -, named, rfl⟩ := start_eq_ok h
    exact named
  | add _ h ih =>
    obtain ⟨-, -, rfl⟩ := add_eq_ok h
    exact ih

theorem derived_of_lawful (lawful : n.Lawful) {name : Value} {next : Nat}
    (h : n.derive name next = .ok m) :
    ∃ s, name = .str s ∧ s ≠ "" ∧ m.name = s ∧ m.operations = n.operations ∧
      m.isOpen = n.isOpen := by
  obtain ⟨s, rfl, named⟩ : ∃ s, name = .str s ∧ s ≠ "" := by
    obtain ⟨d, created, -⟩ := derive_eq_ok h
    cases begun : start name with
    | ok n₀ =>
      obtain ⟨s, rfl, named, -⟩ := start_eq_ok begun
      exact ⟨s, rfl, named⟩
    | error cause =>
      rw [create, begun] at created
      cases created
  obtain ⟨d, derived, same⟩ := derive_of_lawful lawful named next
  obtain rfl := Except.ok.inj (derived.symm.trans h)
  exact ⟨s, rfl, named, same⟩

/-- No effect goes without a name, and a closed one has operations. -/
theorem Arises.sound (h : n.Arises) : n.name ≠ "" ∧ (n.isOpen = false → n.operations ≠ []) := by
  induction h with
  | @made n h =>
    refine ⟨h.named, fun closed none => ?_⟩
    rw [operations, Assoc.keys, List.map_eq_nil_iff] at none
    simp only [finish] at closed none
    rw [none] at closed
    cases closed
  | derived arises h ih =>
    obtain ⟨s, -, named, rfl, operations, isOpen⟩ := derived_of_lawful arises.lawful h
    exact ⟨named, fun closed => operations ▸ ih.2 (isOpen ▸ closed)⟩
  | asked _ h ih =>
    obtain rfl | ⟨-, -, -, rfl⟩ := item_eq_ok h
    · exact ih
    · refine ⟨ih.1, fun _ => ?_⟩
      rw [operations_extend]
      exact List.append_ne_nil_of_right_ne_nil _ (List.cons_ne_nil _ _)

end Namespace

end OneShot
