import OneShot.Assoc

/-!
# Keys that are the same

Equality of keys is an equivalence on values whose mappings have each key once. That is what the
laws of mappings need of keys.
-/

namespace OneShot.Value

/-- The value is the same key as itself. What is the same key as it, is the same key as the same
values. -/
structure Exact (k : Value) : Prop where
  refl : k.same k = true
  same : ∀ k' q, k.same k' = true → k.same q = k'.same q

theorem Exact.same_of_same {k k' q : Value} (hk : k.Exact) (hk' : k'.Exact)
    (h : k.same q = true) (h' : k'.same q = true) : k.same k' = true := by
  rw [hk.same q k' h, ← hk'.same q k' h', hk'.refl]

/-! ## Values without parts -/

/-- Whether the value is the key that it is by its parts. -/
def compound : Value → Bool
  | .tuple .. | .frozen .. | .action .. | .suspended .. | .completed .. | .resume .. | .abort ..
  | .method .. => true
  | _ => false

theorem same_of_number {k : Value} {n : Int} (h : k.number? = some n) (q : Value) :
    k.same q = (some n == q.number?) := by
  cases k with
  | bool b =>
    obtain rfl : (if b then 1 else 0) = n := Option.some.inj h
    cases q with
    | bool c => cases b <;> cases c <;> rfl
    | _ => simp [same, number?]
  | int m =>
    obtain rfl : m = n := Option.some.inj h
    cases q <;> simp [same, number?]
  | _ => cases h

theorem exact_of_number {k : Value} {n : Int} (h : k.number? = some n) : k.Exact where
  refl := by simp [same_of_number h, h]
  same k' q same := by
    rw [same_of_number h, beq_iff_eq] at same
    rw [same_of_number h, same_of_number same.symm]

theorem exact_of_plain {k : Value} (plain : k.compound = false) : k.Exact := by
  -- Only a number is the same key as a value of another class.
  cases number : k.number? with
  | some n => exact exact_of_number number
  | none =>
    constructor
    · cases k <;> first | cases plain; done | simp [same]
    · intro k' q h
      fun_cases same k k' <;>
        simp only [same, Bool.false_eq_true, Bool.and_eq_true, beq_iff_eq] at h
      all_goals first | cases plain; done | cases number; done | cases q <;> simp only [same, h]

theorem exact_str (s : String) : Exact (.str s) := exact_of_plain rfl

/-! ## Values in a row -/

section

variable {xs ys : List Value}

theorem sameAll_refl (exact : ∀ x ∈ xs, x.Exact) : sameAll xs xs = true := by
  induction xs with
  | nil => rfl
  | cons x xs ih =>
    obtain ⟨first, exact⟩ := List.forall_mem_cons.mp exact
    rw [sameAll, first.refl, ih exact, Bool.and_self]

theorem sameAll_congr (exact : ∀ x ∈ xs, x.Exact) (h : sameAll xs ys = true) (zs : List Value) :
    sameAll xs zs = sameAll ys zs := by
  induction xs generalizing ys zs with
  | nil =>
    cases ys with
    | nil => rfl
    | cons => cases h
  | cons x xs ih =>
    obtain ⟨first, exact⟩ := List.forall_mem_cons.mp exact
    cases ys with
    | nil => cases h
    | cons y ys =>
      obtain ⟨same, rest⟩ := Bool.and_eq_true_iff.mp h
      cases zs with
      | nil => rfl
      | cons z zs => rw [sameAll, sameAll, first.same y z same, ih exact rest]

end

/-! ## Mappings -/

/-- The same key with the same content. -/
def sameEntry (x y : Value × Value) : Bool := x.1.same y.1 && x.2.same y.2

section

variable {xs ys : List (Value × Value)}

theorem within_iff : within xs ys = true ↔ ∀ x ∈ xs, ∃ y ∈ ys, sameEntry x y = true := by
  induction xs with
  | nil => simp [within]
  | cons x xs ih => simp [within, ih, sameEntry]

theorem sameEntry_congr {x y : Value × Value} (key : x.1.Exact) (content : x.2.Exact)
    (h : sameEntry x y = true) (z : Value × Value) : sameEntry x z = sameEntry y z := by
  obtain ⟨keys, contents⟩ := Bool.and_eq_true_iff.mp h
  rw [sameEntry, sameEntry, key.same _ _ keys, content.same _ _ contents]

/-- A mapping within one of the same size is all of it. -/
theorem matched_of_within (exact : ∀ x ∈ xs, x.1.Exact)
    (once : xs.Pairwise fun x x' => x.1.same x'.1 = false) (size : xs.length = ys.length)
    (h : ∀ x ∈ xs, ∃ y ∈ ys, sameEntry x y = true) :
    ∀ y ∈ ys, ∃ x ∈ xs, sameEntry x y = true := by
  induction xs generalizing ys with
  | nil =>
    obtain rfl := List.length_eq_zero_iff.mp size.symm
    exact fun y hy => absurd hy List.not_mem_nil
  | cons x xs ih =>
    obtain ⟨first, exact⟩ := List.forall_mem_cons.mp exact
    obtain ⟨other, once⟩ := List.pairwise_cons.mp once
    obtain ⟨⟨y, hy, same⟩, h⟩ := List.forall_mem_cons.mp h
    obtain ⟨before, after, rfl⟩ := List.append_of_mem hy
    have perm : (before ++ y :: after).Perm (y :: (before ++ after)) := List.perm_middle
    -- The entry that is taken by `x` is taken by no other one, so the rest is within the rest.
    have rest : ∀ x' ∈ xs, ∃ y' ∈ before ++ after, sameEntry x' y' = true := by
      intro x' hx'
      obtain ⟨y', hy', same'⟩ := h x' hx'
      refine ⟨y', ?_, same'⟩
      have ne : y' ≠ y := by
        rintro rfl
        have both := first.same_of_same (exact x' hx') (Bool.and_eq_true_iff.mp same).1
          (Bool.and_eq_true_iff.mp same').1
        exact Bool.false_ne_true ((other x' hx').symm.trans both)
      exact (List.mem_cons.mp (perm.mem_iff.mp hy')).resolve_left ne
    have size : xs.length = (before ++ after).length :=
      Nat.succ.inj (size.trans perm.length_eq)
    intro y' hy'
    obtain rfl | hy' := List.mem_cons.mp (perm.mem_iff.mp hy')
    · exact ⟨x, List.mem_cons_self, same⟩
    · obtain ⟨x', hx', same'⟩ := ih exact once size rest y' hy'
      exact ⟨x', List.mem_cons_of_mem x hx', same'⟩

theorem within_refl (keys : ∀ x ∈ xs, x.1.Exact) (contents : ∀ x ∈ xs, x.2.Exact) :
    within xs xs = true :=
  within_iff.mpr fun x hx =>
    ⟨x, hx, Bool.and_eq_true_iff.mpr ⟨(keys x hx).refl, (contents x hx).refl⟩⟩

theorem within_congr (keys : ∀ x ∈ xs, x.1.Exact) (contents : ∀ x ∈ xs, x.2.Exact)
    (once : xs.Pairwise fun x x' => x.1.same x'.1 = false) (size : xs.length = ys.length)
    (h : within xs ys = true) (zs : List (Value × Value)) : within xs zs = within ys zs := by
  have there := within_iff.mp h
  have back := matched_of_within keys once size there
  rw [Bool.eq_iff_iff, within_iff, within_iff]
  constructor
  · intro all y hy
    obtain ⟨x, hx, same⟩ := back y hy
    obtain ⟨z, hz, same'⟩ := all x hx
    exact ⟨z, hz, (sameEntry_congr (keys x hx) (contents x hx) same z).symm.trans same'⟩
  · intro all x hx
    obtain ⟨y, hy, same⟩ := there x hx
    obtain ⟨z, hz, same'⟩ := all y hy
    exact ⟨z, hz, (sameEntry_congr (keys x hx) (contents x hx) same z).trans same'⟩

end

/-! ## Well-formed values -/

/-- Each mapping in the value has each key once. -/
inductive WellFormed : Value → Prop where
  | plain {v} (plain : v.compound = false) : WellFormed v
  | tuple {id xs} (items : ∀ x ∈ xs, WellFormed x) : WellFormed (.tuple id xs)
  | frozen {id m} (keys : ∀ e ∈ m, WellFormed e.1) (contents : ∀ e ∈ m, WellFormed e.2)
      (once : m.Pairwise fun e f => e.1.same f.1 = false) : WellFormed (.frozen id m)
  | action {id e o t ps} (effect : WellFormed e) (operation : WellFormed o)
      (parameters : ∀ x ∈ ps, WellFormed x) : WellFormed (.action id e o t ps)
  | suspended {id v} (action : WellFormed v) : WellFormed (.suspended id v)
  | completed {id v} (result : WellFormed v) : WellFormed (.completed id v)
  | resume {id v} (value : WellFormed v) : WellFormed (.resume id v)
  | abort {id v} (value : WellFormed v) : WellFormed (.abort id v)
  | method {r m} (receiver : WellFormed r) : WellFormed (.method r m)

theorem WellFormed.exact {v : Value} (h : v.WellFormed) : v.Exact := by
  induction h with
  | plain plain => exact exact_of_plain plain
  | tuple _ items =>
    constructor
    · rw [same, sameAll_refl items]
    · intro k' q h
      cases k' <;> simp only [same, Bool.false_eq_true] at h
      cases q <;> simp only [same, sameAll_congr items h]
  | @frozen id entries _ _ once keys contents =>
    constructor
    · rw [same, within_refl keys contents, beq_self_eq_true, Bool.and_self]
    · intro k' q h
      cases k' <;> simp only [same, Bool.false_eq_true, Bool.and_eq_true, beq_iff_eq] at h
      obtain ⟨size, h⟩ := h
      cases q <;> simp only [same, size, within_congr keys contents once size h]
  | action _ _ _ effect operation parameters =>
    constructor
    · rw [same, effect.refl, operation.refl, sameAll_refl parameters, Bool.and_self, Bool.and_self]
    · intro k' q h
      cases k' <;> simp only [same, Bool.false_eq_true, Bool.and_eq_true] at h
      obtain ⟨⟨he, ho⟩, hp⟩ := h
      cases q <;> simp only [same, effect.same _ _ he, operation.same _ _ ho,
        sameAll_congr parameters hp]
  | method _ receiver =>
    constructor
    · rw [same, receiver.refl, beq_self_eq_true, Bool.and_self]
    · intro k' q h
      cases k' <;> simp only [same, Bool.false_eq_true, Bool.and_eq_true, beq_iff_eq] at h
      obtain ⟨hr, rfl⟩ := h
      cases q <;> simp only [same, receiver.same _ _ hr]
  | suspended _ part | completed _ part | resume _ part | abort _ part =>
    constructor
    · rw [same, part.refl]
    · intro k' q h
      cases k' <;> simp only [same, Bool.false_eq_true] at h
      cases q <;> simp only [same, part.same _ _ h]

end OneShot.Value
