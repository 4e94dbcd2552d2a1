import OneShot.Proofs.StoreCalls
import OneShot.Effects

/-!
# Operations of an effect

How an effect comes to its operations, and what an access by a text does to them. Operations are
only ever added at the end, and each of them is there once.
-/

namespace OneShot

namespace Value

theorem same_str_right {v : Value} {s : String} : v.same (.str s) = true ↔ v = .str s := by
  cases v with
  | str t => simp [same]
  | _ => simp [same]

end Value

namespace Assoc

variable {α : Type}

theorem put_of_get?_none {m : Assoc α} {k : Value} (h : m.get? k = none) (a : α) :
    m.put k a = m ++ [(k, a)] := by
  induction m with
  | nil => rfl
  | cons e m ih =>
    rw [get?_cons] at h
    split at h
    · cases h
    · rename_i other
      rw [put, if_neg other, ih h, List.cons_append]

theorem get?_eq_none {m : Assoc α} {q : Value} :
    m.get? q = none ↔ ∀ k ∈ m.keys, k.same q = false := by
  simp [get?, entry?, keys, List.find?_eq_none]

theorem entry?_str {m : Assoc α} {s : String} {e : Value × α} (h : m.entry? (.str s) = some e) :
    e.1 = .str s := by
  rw [Assoc.entry?] at h
  simpa [Value.same_str_right] using List.find?_some h

theorem get?_of_prefix {m m' : Assoc α} (h : m <+: m') {q : Value} {a : α}
    (known : m.get? q = some a) : m'.get? q = some a := by
  obtain ⟨rest, rfl⟩ := h
  obtain ⟨e, entry, rfl⟩ := Option.map_eq_some_iff.mp known
  rw [Assoc.entry?] at entry
  rw [get?, Assoc.entry?, List.find?_append, entry]
  rfl

theorem get?_concat {m : Assoc α} {k : Value} (new : m.get? k = none) (same : k.same k = true)
    {a : α} : get? (m ++ [(k, a)]) k = some a := by
  have unknown : Assoc.entry? m k = none := by simpa [get?] using new
  rw [Assoc.entry?] at unknown
  rw [get?, Assoc.entry?, List.find?_append, unknown]
  simp [same]

theorem get?_str_eq_none {m : Assoc α} {s : String} :
    m.get? (.str s) = none ↔ Value.str s ∉ m.keys := by
  rw [get?_eq_none]
  constructor
  · intro h known
    simpa [Value.same] using h _ known
  · intro h k hk
    rw [← Bool.not_eq_true, Value.same_str_right]
    rintro rfl
    exact h hk

theorem contains_str {m : Assoc α} {s : String} :
    m.contains (.str s) = true ↔ Value.str s ∈ m.keys := by
  rw [contains, Option.isSome_iff_ne_none, ne_eq, get?_str_eq_none, not_not]

end Assoc

namespace Namespace

/-! ## How effects arise -/

/-- An effect that operations are being added to. -/
inductive Making : Namespace → Prop where
  | start {name : Value} {n : Namespace} (h : start name = .ok n) : Making n
  | add {n m : Namespace} {id : Nat} {o : Value} (h : Making n) (h' : n.add id o = .ok m) : Making m

/-- An effect is made, or derived from one that has arisen, and may then be asked for operations. -/
inductive Arises : Namespace → Prop where
  | made {n : Namespace} (h : Making n) : Arises n.finish
  | derived {n m : Namespace} {name : Value} {next : Nat} (h : Arises n)
      (h' : n.derive name next = .ok m) : Arises m
  | asked {n m : Namespace} {next : Nat} {o c : Value} (h : Arises n)
      (h' : n.item next o = .ok (c, m)) : Arises m

/-- Every operation can be a key, and none is the same key as a later one. -/
structure Lawful (n : Namespace) : Prop where
  keys : ∀ o ∈ n.operations, o.isKey = true
  once : n.operations.Pairwise fun o o' => o.same o' = false

/-- The effect with one more operation, which comes last. -/
def extend (n : Namespace) (o : Value) (id : Nat) : Namespace :=
  { n with creators := n.creators ++ [(o, id)] }

@[simp] theorem name_extend (n : Namespace) (o : Value) (id : Nat) :
    (n.extend o id).name = n.name := rfl

@[simp] theorem isOpen_extend (n : Namespace) (o : Value) (id : Nat) :
    (n.extend o id).isOpen = n.isOpen := rfl

@[simp] theorem operations_extend (n : Namespace) (o : Value) (id : Nat) :
    (n.extend o id).operations = n.operations ++ [o] := by
  simp [operations, extend, Assoc.keys]

theorem Lawful.extend {n : Namespace} (h : n.Lawful) {o : Value} (key : o.isKey = true)
    (new : n.creators.get? o = none) (id : Nat) : (n.extend o id).Lawful where
  keys := by
    intro o' ho'
    rw [operations_extend, List.mem_append, List.mem_singleton] at ho'
    rcases ho' with known | rfl
    · exact h.keys o' known
    · exact key
  once := by
    rw [operations_extend, List.pairwise_append]
    refine ⟨h.once, List.pairwise_singleton _ o, ?_⟩
    intro o' known _ ho
    rw [List.mem_singleton.mp ho]
    exact Assoc.get?_eq_none.mp new o' known

theorem add_eq_ok {n m : Namespace} {id : Nat} {o : Value} (h : n.add id o = .ok m) :
    o.isKey = true ∧ n.creators.get? o = none ∧ m = n.extend o id := by
  unfold add at h
  split at h
  · cases h
  · rename_i key
    split at h
    · cases h
    · rename_i new
      have new : n.creators.get? o = none := by
        simpa [contains, Assoc.contains] using new
      rw [Assoc.put_of_get?_none new] at h
      exact ⟨by simpa using key, new, (Except.ok.inj h).symm⟩

theorem add_of_new {n : Namespace} {o : Value} (key : o.isKey = true)
    (new : n.creators.get? o = none) (id : Nat) : n.add id o = .ok (n.extend o id) := by
  simp [add, key, contains, Assoc.contains, new, Assoc.put_of_get?_none new, extend]

theorem start_eq_ok {name : Value} {n : Namespace} (h : start name = .ok n) :
    ∃ s, name = .str s ∧ s ≠ "" ∧ n = ⟨s, [], false⟩ := by
  unfold start at h
  split at h
  · rename_i s
    split at h
    · cases h
    · rename_i named
      exact ⟨s, rfl, by simpa using named, (Except.ok.inj h).symm⟩
  · cases h

theorem Making.lawful {n : Namespace} (h : Making n) : n.Lawful := by
  induction h with
  | start h =>
    obtain ⟨s, -, -, rfl⟩ := start_eq_ok h
    exact ⟨by simp [operations, Assoc.keys], List.Pairwise.nil⟩
  | add _ h ih =>
    obtain ⟨key, new, rfl⟩ := add_eq_ok h
    exact ih.extend key new _

theorem Making.declare {n m : Namespace} {next : Nat} {operations : List Value} (h : Making n)
    (h' : n.declare next operations = .ok m) : Making m := by
  induction operations generalizing n next with
  | nil =>
    obtain rfl := Except.ok.inj h'
    exact h
  | cons o rest ih =>
    rw [Namespace.declare] at h'
    cases added : n.add next o with
    | error cause => rw [added] at h'; cases h'
    | ok n₁ =>
      rw [added] at h'
      exact ih (h.add added) h'

theorem create_eq_ok {name : Value} {next : Nat} {operations : List Value} {m : Namespace}
    (h : create name next operations = .ok m) : ∃ n, Making n ∧ m = n.finish := by
  unfold create at h
  cases begun : start name with
  | error cause => rw [begun] at h; cases h
  | ok n₀ =>
    rw [begun] at h
    cases declared : n₀.declare next operations with
    | error cause =>
      simp only [bind, Except.bind, declared] at h
      cases h
    | ok n =>
      simp only [bind, Except.bind, declared] at h
      exact ⟨n, (Making.start begun).declare declared, (Except.ok.inj h).symm⟩

theorem derive_eq_ok {n m : Namespace} {name : Value} {next : Nat}
    (h : n.derive name next = .ok m) :
    ∃ d, create name next n.operations = .ok d ∧ m = { d with isOpen := n.isOpen } := by
  unfold derive at h
  cases created : create name next n.operations with
  | error cause => rw [created] at h; cases h
  | ok d =>
    rw [created] at h
    exact ⟨d, rfl, (Except.ok.inj h).symm⟩

theorem item_eq_ok {n m : Namespace} {next : Nat} {o c : Value} (h : n.item next o = .ok (c, m)) :
    m = n ∨ o.isKey = true ∧ n.creators.get? o = none ∧ n.isOpen = true ∧ m = n.extend o next := by
  unfold item at h
  split at h
  · cases h
  · rename_i key
    split at h
    · exact Or.inl (Prod.mk.inj (Except.ok.inj h)).2.symm
    · rename_i unknown
      split at h
      · rename_i isOpen
        have new : n.creators.get? o = none := by simp [Assoc.get?, unknown]
        rw [Assoc.put_of_get?_none new] at h
        exact Or.inr ⟨by simpa using key, new, isOpen, (Prod.mk.inj (Except.ok.inj h)).2.symm⟩
      · cases h

theorem arises_of_create {name : Value} {next : Nat} {operations : List Value} {m : Namespace}
    (h : create name next operations = .ok m) : m.Arises := by
  obtain ⟨n, making, rfl⟩ := create_eq_ok h
  exact .made making

theorem lawful_of_derive {n m : Namespace} {name : Value} {next : Nat}
    (h : n.derive name next = .ok m) : m.Lawful := by
  obtain ⟨d, created, rfl⟩ := derive_eq_ok h
  obtain ⟨made, making, rfl⟩ := create_eq_ok created
  exact ⟨making.lawful.keys, making.lawful.once⟩

theorem Arises.lawful {n : Namespace} (h : n.Arises) : n.Lawful := by
  induction h with
  | made h => exact ⟨h.lawful.keys, h.lawful.once⟩
  | derived _ h => exact lawful_of_derive h
  | asked _ h ih =>
    obtain rfl | ⟨key, new, -, rfl⟩ := item_eq_ok h
    · exact ih
    · exact ih.extend key new _

/-! ## Creation and derivation -/

theorem declare_of_lawful {n : Namespace} {operations : List Value}
    (keys : ∀ o ∈ operations, o.isKey = true)
    (once : (n.operations ++ operations).Pairwise fun o o' => o.same o' = false) (next : Nat) :
    ∃ m, n.declare next operations = .ok m ∧ m.name = n.name ∧
      m.operations = n.operations ++ operations := by
  induction operations generalizing n next with
  | nil => exact ⟨n, rfl, rfl, (List.append_nil _).symm⟩
  | cons o rest ih =>
    obtain ⟨key, keys⟩ := List.forall_mem_cons.mp keys
    have new : n.creators.get? o = none :=
      Assoc.get?_eq_none.mpr fun o' known =>
        (List.pairwise_append.mp once).2.2 o' known o List.mem_cons_self
    obtain ⟨m, declared, name, operations⟩ := ih (n := n.extend o next) keys
      (by rwa [operations_extend, List.append_assoc]) (next + 1)
    refine ⟨m, ?_, name, ?_⟩
    · rw [declare, add_of_new key new]
      exact declared
    · rw [operations, operations_extend, List.append_assoc, List.singleton_append]

theorem start_named {name : String} (named : name ≠ "") :
    start (.str name) = .ok ⟨name, [], false⟩ := by
  simp [start, named]

theorem create_of_lawful {name : String} (named : name ≠ "") {operations : List Value}
    (keys : ∀ o ∈ operations, o.isKey = true)
    (once : operations.Pairwise fun o o' => o.same o' = false) (next : Nat) :
    ∃ n, create (.str name) next operations = .ok n ∧ n.name = name ∧ n.operations = operations ∧
      n.isOpen = operations.isEmpty := by
  obtain ⟨n, declared, sameName, sameOperations⟩ :=
    declare_of_lawful (n := ⟨name, [], false⟩) keys (by simpa [Namespace.operations, Assoc.keys])
      next
  have all : n.operations = operations := by
    simpa [Namespace.operations, Assoc.keys] using sameOperations
  refine ⟨n.finish, ?_, sameName, all, ?_⟩
  · simp only [create, start_named named, bind, Except.bind, declared]
    rfl
  · rw [← all]
    exact (List.isEmpty_map).symm

/-- Every effect that has arisen can be derived under every name that is not empty. -/
theorem derive_of_lawful {n : Namespace} (h : n.Lawful) {name : String} (named : name ≠ "")
    (next : Nat) :
    ∃ d, n.derive (.str name) next = .ok d ∧ d.name = name ∧ d.operations = n.operations ∧
      d.isOpen = n.isOpen := by
  obtain ⟨d, created, sameName, sameOperations, -⟩ := create_of_lawful named h.keys h.once next
  refine ⟨{ d with isOpen := n.isOpen }, ?_, sameName, sameOperations, rfl⟩
  rw [derive, created]
  rfl

/-! ## Growth -/

/-- The later state of an effect: the same creators, and after them the ones that an open effect has
been asked for. -/
structure Grows (n m : Namespace) : Prop where
  name : m.name = n.name
  isOpen : m.isOpen = n.isOpen
  creators : n.creators <+: m.creators
  closed : n.isOpen = false → m = n

theorem Grows.refl (n : Namespace) : n.Grows n := ⟨rfl, rfl, List.prefix_rfl, fun _ => rfl⟩

theorem Grows.trans {n m k : Namespace} (h : n.Grows m) (h' : m.Grows k) : n.Grows k where
  name := h'.name.trans h.name
  isOpen := h'.isOpen.trans h.isOpen
  creators := h.creators.trans h'.creators
  closed closed := (h'.closed (h.isOpen.trans closed)).trans (h.closed closed)

theorem grows_of_item {n m : Namespace} {next : Nat} {o c : Value}
    (h : n.item next o = .ok (c, m)) : n.Grows m := by
  obtain rfl | ⟨-, -, isOpen, rfl⟩ := item_eq_ok h
  · exact Grows.refl _
  · exact ⟨rfl, rfl, List.prefix_append _ _, fun closed => by simp [closed] at isOpen⟩

/-! ## Accesses by a text -/

/-- How an access to an operation ends: with its creator, with a new one at the end of an open
effect, or with an error. -/
inductive Found (n : Namespace) (next : Nat) (o : String) :
    Except (Cause Value) (Value × Namespace) → Prop where
  | known {id : Nat} (h : n.creators.get? (.str o) = some id) :
      Found n next o (.ok (n.creatorValue (.str o) id, n))
  | added (isOpen : n.isOpen = true) (new : .str o ∉ n.operations) :
      Found n next o (.ok (n.creatorValue (.str o) next, n.extend (.str o) next))
  | missing {cause : Cause Value} (closed : n.isOpen = false) (new : .str o ∉ n.operations) :
      Found n next o (.error cause)

theorem item_found (n : Namespace) (next : Nat) (o : String) :
    Found n next o (n.item next (.str o)) := by
  unfold item
  rw [if_neg (by simp [World.State.isKey_str])]
  cases entry : n.creators.entry? (.str o) with
  | some e =>
    obtain ⟨k, id⟩ := e
    obtain rfl : k = .str o := Assoc.entry?_str entry
    exact Found.known (by rw [Assoc.get?, entry]; rfl)
  | none =>
    have unknown : n.creators.get? (.str o) = none := by simp [Assoc.get?, entry]
    have new : Value.str o ∉ n.operations := Assoc.get?_str_eq_none.mp unknown
    by_cases isOpen : n.isOpen = true
    · simp only [if_pos isOpen, Assoc.put_of_get?_none unknown]
      exact Found.added isOpen new
    · simp only [if_neg isOpen]
      exact Found.missing (by simpa using isOpen) new

theorem named_eq_ok {n : Namespace} {o : String} {next : Nat} {found : Value × Namespace} :
    n.named next o = .ok found ↔
      o.startsWith "_" = false ∧ n.item next (.str o) = .ok found := by
  unfold named
  cases o.startsWith "_" with
  | true => simp
  | false =>
    rw [if_neg Bool.false_ne_true, eq_self, true_and]
    cases n.item next (.str o) with
    | ok r => rfl
    | error cause =>
      refine iff_of_false ?_ (by rintro ⟨⟩)
      dsimp only
      split <;> rintro ⟨⟩

theorem Found.of_known {n : Namespace} {next : Nat} {o : String} {id : Nat}
    (known : n.creators.get? (.str o) = some id) {r : Except (Cause Value) (Value × Namespace)}
    (found : Found n next o r) : r = .ok (n.creatorValue (.str o) id, n) := by
  cases found with
  | known known' => rw [Option.some.inj (known.symm.trans known')]
  | added _ new | missing _ new =>
    rw [Assoc.get?_str_eq_none.mpr new] at known
    cases known

theorem Found.isOk_iff {n : Namespace} {next : Nat} {o : String}
    {r : Except (Cause Value) (Value × Namespace)} (h : Found n next o r) :
    (∃ found, r = .ok found) ↔ .str o ∈ n.operations ∨ n.isOpen = true := by
  cases h with
  | known known =>
    have there : Value.str o ∈ n.operations := by
      by_contra new
      rw [Assoc.get?_str_eq_none.mpr new] at known
      cases known
    exact iff_of_true ⟨_, rfl⟩ (Or.inl there)
  | added isOpen => exact iff_of_true ⟨_, rfl⟩ (Or.inr isOpen)
  | missing closed new => exact iff_of_false (by rintro ⟨_, ⟨⟩⟩) (by simp [closed, new])

theorem Found.kept {n m : Namespace} {next : Nat} {o : String} {c : Value}
    (h : Found n next o (.ok (c, m))) :
    m.name = n.name ∧
      ∃ id, c = n.creatorValue (.str o) id ∧ m.creators.get? (.str o) = some id := by
  cases h with
  | known known => exact ⟨rfl, _, rfl, known⟩
  | added _ new =>
    exact ⟨rfl, _, rfl, Assoc.get?_concat (Assoc.get?_str_eq_none.mpr new) (Value.exact_str o).refl⟩

end Namespace

end OneShot
