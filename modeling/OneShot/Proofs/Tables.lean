import Mathlib.Data.List.Forall2
import OneShot.Proofs.Keys
import OneShot.Table

/-!
# Merged tables

What a table of two tables claims. For the same operation the last one wins, so it is asked first.
-/

namespace OneShot

namespace Assoc

variable {α β : Type}

/-- Every key is exact and is there once. -/
structure Regular (m : Assoc α) : Prop where
  exact : ∀ e ∈ m, e.1.Exact
  once : m.Pairwise fun e f => e.1.same f.1 = false

theorem Regular.tail {e : Value × α} {m : Assoc α} (h : Regular (e :: m)) : Regular m :=
  ⟨fun f hf => h.exact f (List.mem_cons_of_mem e hf), h.once.of_cons⟩

@[simp] theorem get?_nil (q : Value) : get? ([] : Assoc α) q = none := rfl

theorem get?_cons (e : Value × α) (m : Assoc α) (q : Value) :
    get? (e :: m) q = if e.1.same q then some e.2 else m.get? q := by
  by_cases h : e.1.same q <;> simp [get?, entry?, h]

/-- The same keys in the same order, with related contents. -/
def Over (P : α → β → Prop) (m : Assoc α) (m' : Assoc β) : Prop :=
  List.Forall₂ (fun e f => e.1 = f.1 ∧ P e.2 f.2) m m'

theorem Over.get? {P : α → β → Prop} {m : Assoc α} {m' : Assoc β} (h : Over P m m') (q : Value) :
    m.get? q = none ∧ m'.get? q = none ∨ ∃ a b, m.get? q = some a ∧ m'.get? q = some b ∧ P a b := by
  induction h with
  | nil => exact .inl ⟨rfl, rfl⟩
  | @cons e f _ _ first _ ih =>
    rw [get?_cons, get?_cons, first.1]
    split
    · exact .inr ⟨e.2, f.2, rfl, rfl, first.2⟩
    · exact ih

theorem get?_eq_of_mem {m : Assoc α} {q : Value} {a : α} (h : m.get? q = some a) :
    ∃ e ∈ m, e.1.same q = true ∧ e.2 = a := by
  obtain ⟨e, he, rfl⟩ := Option.map_eq_some_iff.mp h
  exact ⟨e, List.mem_of_find?_eq_some he, by simpa using List.find?_some he, rfl⟩

theorem get?_congr {m : Assoc α} (exact : ∀ e ∈ m, e.1.Exact) {k q : Value} (hk : k.Exact)
    (h : k.same q = true) : m.get? k = m.get? q := by
  induction m with
  | nil => rfl
  | cons e m ih =>
    have he := exact e List.mem_cons_self
    have : e.1.same k = e.1.same q := by
      by_cases hek : e.1.same k = true
      · rw [hek, he.same k q hek, h]
      · by_cases heq : e.1.same q = true
        · exact absurd (he.same_of_same hk heq h) hek
        · rw [Bool.not_eq_true] at hek heq
          rw [hek, heq]
    rw [get?_cons, get?_cons, this, ih fun f hf => exact f (List.mem_cons_of_mem e hf)]

theorem mem_put {m : Assoc α} {k : Value} {a : α} {f : Value × α} (h : f ∈ m.put k a) :
    f.1 = k ∨ ∃ e ∈ m, f.1 = e.1 := by
  induction m with
  | nil =>
    obtain rfl : f = (k, a) := by simpa [put] using h
    exact Or.inl rfl
  | cons e m ih =>
    unfold put at h
    split at h
    · rcases List.mem_cons.mp h with rfl | h
      · exact Or.inr ⟨e, List.mem_cons_self, rfl⟩
      · exact Or.inr ⟨f, List.mem_cons_of_mem e h, rfl⟩
    · rcases List.mem_cons.mp h with rfl | h
      · exact Or.inr ⟨e, List.mem_cons_self, rfl⟩
      · rcases ih h with h | ⟨g, hg, h⟩
        · exact Or.inl h
        · exact Or.inr ⟨g, List.mem_cons_of_mem e hg, h⟩

theorem exact_put {m : Assoc α} (exact : ∀ e ∈ m, e.1.Exact) {k : Value} (hk : k.Exact) (a : α) :
    ∀ e ∈ m.put k a, e.1.Exact := by
  intro f hf
  rcases mem_put hf with h | ⟨e, he, h⟩
  · rw [h]
    exact hk
  · rw [h]
    exact exact e he

theorem get?_put {m : Assoc α} (exact : ∀ e ∈ m, e.1.Exact) {k : Value} (hk : k.Exact) (a : α)
    (q : Value) : (m.put k a).get? q = if k.same q then some a else m.get? q := by
  induction m with
  | nil => simp [put, get?_cons]
  | cons e m ih =>
    have he := exact e List.mem_cons_self
    unfold put
    by_cases hek : e.1.same k = true
    · rw [if_pos hek, get?_cons, get?_cons, he.same k q hek]
      by_cases hkq : k.same q = true <;> simp [hkq]
    · rw [if_neg hek, get?_cons, get?_cons, ih fun f hf => exact f (List.mem_cons_of_mem e hf)]
      by_cases heq : e.1.same q = true
      · have : k.same q = false := by
          rw [← Bool.not_eq_true]
          exact fun hkq => hek (he.same_of_same hk heq hkq)
        simp [heq, this]
      · simp [heq]

theorem Regular.get?_tail {e : Value × α} {m : Assoc α} (h : Regular (e :: m)) {q : Value}
    (hq : e.1.same q = true) : m.get? q = none := by
  cases hm : m.get? q with
  | none => rfl
  | some a =>
    obtain ⟨f, hf, hfq, -⟩ := get?_eq_of_mem hm
    -- Two exact keys that are the same as a third one are the same, but no key is there twice.
    have := (h.exact e List.mem_cons_self).same_of_same
      (h.exact f (List.mem_cons_of_mem e hf)) hq hfq
    rw [(List.pairwise_cons.mp h.once).1 f hf] at this
    cases this

/-! ### Entries put over others -/

/-- Puts the entries of `other` one after the other, each mixed with what is under its key. -/
def blend (mix : Option α → α → α) (m other : Assoc α) : Assoc α :=
  other.foldl (fun acc entry => put acc entry.1 (mix (acc.get? entry.1) entry.2)) m

/-- What is under a key after something is put over it. -/
def mixed (mix : Option α → α → α) (under : Option α) : Option α → Option α
  | none => under
  | some a => some (mix under a)

theorem update_eq (m other : Assoc α) : m.update other = blend (fun _ a => a) m other := rfl

section

variable {mix : Option α → α → α} {m other : Assoc α} (exact : ∀ e ∈ m, e.1.Exact)

include exact

theorem exact_blend (exact' : ∀ e ∈ other, e.1.Exact) :
    ∀ e ∈ blend mix m other, e.1.Exact := by
  unfold blend
  induction other generalizing m with
  | nil => exact exact
  | cons e other ih =>
    exact ih (exact_put exact (exact' e List.mem_cons_self) _)
      fun f hf => exact' f (List.mem_cons_of_mem e hf)

theorem get?_blend (regular : other.Regular) (q : Value) :
    (blend mix m other).get? q = mixed mix (m.get? q) (other.get? q) := by
  unfold blend
  induction other generalizing m with
  | nil => rfl
  | cons e other ih =>
    have he := regular.exact e List.mem_cons_self
    rw [List.foldl_cons, ih (exact_put exact he _) regular.tail, get?_put exact he, get?_cons]
    by_cases h : e.1.same q = true
    · rw [regular.get?_tail h, if_pos h, if_pos h, get?_congr exact he h]
      rfl
    · rw [if_neg h, if_neg h]

theorem exact_update (exact' : ∀ e ∈ other, e.1.Exact) : ∀ e ∈ m.update other, e.1.Exact :=
  update_eq m other ▸ exact_blend exact exact'

theorem get?_update (regular : other.Regular) (q : Value) :
    (m.update other).get? q = (other.get? q).or (m.get? q) := by
  rw [update_eq, get?_blend exact regular]
  cases other.get? q <;> rfl

end

theorem get?_mapContents (f : α → β) (m : Assoc α) (q : Value) :
    (m.mapContents f).get? q = (m.get? q).map f := by
  induction m with
  | nil => rfl
  | cons e m ih =>
    rw [mapContents, List.map_cons, get?_cons, get?_cons, ← mapContents, ih]
    by_cases h : e.1.same q = true <;> simp [h]

theorem Regular.mapContents {m : Assoc α} (h : m.Regular) (f : α → β) :
    (m.mapContents f).Regular where
  exact e he := by
    obtain ⟨e, hm, rfl⟩ := List.mem_map.mp he
    exact h.exact e hm
  once := List.pairwise_map.mpr h.once

end Assoc

/-! ## Tables -/

namespace Table

/-- The names of effects and operations are exact, and each is there once. -/
structure Regular (t : Table) : Prop where
  effects : Assoc.Regular t
  operations : ∀ e ∈ t, e.2.Regular

theorem Regular.of_get? {t : Table} (h : t.Regular) {effect : Value} {entries : Assoc Value}
    (ht : Assoc.get? t effect = some entries) : entries.Regular := by
  obtain ⟨e, he, -, rfl⟩ := Assoc.get?_eq_of_mem ht
  exact h.operations e he

/-- What a table has for an effect after another table is put over it. -/
def covered (under : Option (Assoc Value)) : Option (Assoc Value) → Option (Assoc Value)
  | none => under
  | some entries => some ((under.getD []).update entries)

theorem overlay_eq (t other : Table) :
    t.overlay other = Assoc.blend (fun under => Assoc.update (under.getD [])) t other :=
  rfl

theorem get?_overlay {t other : Table} (exact : ∀ e ∈ t, e.1.Exact)
    (regular : Assoc.Regular other) (q : Value) :
    Assoc.get? (t.overlay other) q = covered (Assoc.get? t q) (Assoc.get? other q) := by
  rw [overlay_eq, Assoc.get?_blend exact regular]
  cases Assoc.get? other q <;> rfl

theorem exact_overlay {t other : Table} (exact : ∀ e ∈ t, e.1.Exact)
    (exact' : ∀ e ∈ other, e.1.Exact) : ∀ e ∈ t.overlay other, e.1.Exact :=
  overlay_eq t other ▸ Assoc.exact_blend exact exact'

theorem get?_merge {A B : Table} (hA : A.Regular) (hB : B.Regular) (q : Value) :
    Assoc.get? (merge [B, A]) q = covered (covered none (Assoc.get? B q)) (Assoc.get? A q) := by
  have none_exact : ∀ e ∈ ([] : Table), e.1.Exact := by simp
  have exact := exact_overlay none_exact hB.effects.exact
  simp only [merge, List.foldl_cons, List.foldl_nil]
  rw [get?_overlay exact hA.effects, get?_overlay none_exact hB.effects]
  rfl

theorem mem_of_claim {t : Table} {v f : Value} (h : t.claim v = .entry f) :
    ∃ e ∈ t, ∃ x ∈ e.2, x.2 = f := by
  cases v with
  | action id effect operation tuple parameters =>
    simp only [claim] at h
    split at h
    · cases hte : Assoc.get? t effect with
      | none => simp [hte] at h
      | some entries =>
        simp only [hte] at h
        split at h
        · cases ho : entries.get? operation with
          | none => simp [ho] at h
          | some a =>
            obtain ⟨e, he, -, rfl⟩ := Assoc.get?_eq_of_mem hte
            obtain ⟨x, hx, -, rfl⟩ := Assoc.get?_eq_of_mem ho
            exact ⟨e, he, x, hx, by simpa [ho] using h⟩
        · cases h
    · cases h
  | _ => cases h

/-- The last table is asked first. The other one is asked if that claims nothing. -/
theorem claim_merge {A B : Table} (hA : A.Regular) (hB : B.Regular) (v : Value) :
    (merge [B, A]).claim v =
      match A.claim v with
      | .unclaimed => B.claim v
      | claim => claim := by
  cases v with
  | action id effect operation tuple parameters =>
    have none_exact : ∀ e ∈ ([] : Assoc Value), e.1.Exact := by simp
    simp only [claim, get?_merge hA hB]
    -- Both levels are looked up in the merged table. A name that is no key is refused before either
    -- table is asked.
    by_cases heffect : effect.isKey
    · simp only [if_pos heffect]
      cases hAe : Assoc.get? A effect with
      | none =>
        cases hBe : Assoc.get? B effect with
        | none => rfl
        | some entries =>
          simp only [covered, Option.getD_none]
          rw [Assoc.get?_update none_exact (hB.of_get? hBe), Assoc.get?_nil, Option.or_none]
      | some entries =>
        by_cases hoperation : operation.isKey
        · cases hBe : Assoc.get? B effect with
          | none =>
            simp only [covered, Option.getD_none, if_pos hoperation]
            rw [Assoc.get?_update none_exact (hA.of_get? hAe), Assoc.get?_nil, Option.or_none]
            cases entries.get? operation <;> rfl
          | some entries' =>
            have exact' := Assoc.exact_update none_exact (hB.of_get? hBe).exact
            simp only [covered, Option.getD_none, Option.getD_some, if_pos hoperation]
            rw [Assoc.get?_update exact' (hA.of_get? hAe),
              Assoc.get?_update none_exact (hB.of_get? hBe), Assoc.get?_nil, Option.or_none]
            cases entries.get? operation <;> rfl
        · simp only [covered, if_neg hoperation]
    · simp only [if_neg heffect]
  | _ => rfl

/-- The tables have no operation of an effect in common. -/
def Apart (A B : Table) : Prop :=
  ∀ e ∈ A, ∀ f ∈ B, e.1.same f.1 = true → ∀ x ∈ e.2, ∀ y ∈ f.2, x.1.same y.1 = false

theorem unclaimed_of_apart {A B : Table} (hA : A.Regular) (hB : B.Regular) (apart : A.Apart B)
    {v a : Value} (h : A.claim v = .entry a) : B.claim v = .unclaimed := by
  cases v with
  | action id effect operation tuple parameters =>
    simp only [claim] at h ⊢
    split at h
    · rename_i heffect
      rw [if_pos heffect]
      cases hAe : Assoc.get? A effect with
      | none => simp [hAe] at h
      | some entries =>
        cases hBe : Assoc.get? B effect with
        | none => rfl
        | some entries' =>
          obtain ⟨e, he, heq, rfl⟩ := Assoc.get?_eq_of_mem hAe
          obtain ⟨f, hf, hfq, rfl⟩ := Assoc.get?_eq_of_mem hBe
          -- Both tables know the effect, so their names for it are the same key. Then the
          -- operations differ.
          have hef := (hA.effects.exact e he).same_of_same (hB.effects.exact f hf) heq hfq
          simp only [hAe] at h ⊢
          split at h
          · rename_i hoperation
            rw [if_pos hoperation]
            cases hAo : e.2.get? operation with
            | none => simp [hAo] at h
            | some b =>
              obtain ⟨x, hx, hxq, -⟩ := Assoc.get?_eq_of_mem hAo
              cases hBo : f.2.get? operation with
              | none => rfl
              | some c =>
                obtain ⟨y, hy, hyq, -⟩ := Assoc.get?_eq_of_mem hBo
                have hxy := ((hA.operations e he).exact x hx).same_of_same
                  ((hB.operations f hf).exact y hy) hxq hyq
                rw [apart e he f hf hef x hx y hy] at hxy
                cases hxy
          · cases h
    · cases h
  | _ => cases h

theorem notKey_or_unclaimed {A : Table} (B : Table) {v name : Value}
    (h : A.claim v = .notKey name) : B.claim v = .unclaimed ∨ B.claim v = .notKey name := by
  cases v with
  | action id effect operation tuple parameters =>
    simp only [claim] at h ⊢
    split at h
    · rename_i heffect
      rw [if_pos heffect]
      cases hAe : Assoc.get? A effect with
      | none => simp [hAe] at h
      | some entries =>
        simp only [hAe] at h
        split at h
        · cases hAo : entries.get? operation <;> simp [hAo] at h
        · rename_i hoperation
          cases Assoc.get? B effect with
          | none => exact Or.inl rfl
          | some _ => exact Or.inr (by simpa only [if_neg hoperation] using h)
    · rename_i heffect
      exact Or.inr (by rw [if_neg heffect, h])
  | _ => cases h

theorem claim_merge_comm {A B : Table} (hA : A.Regular) (hB : B.Regular) (apart : A.Apart B)
    (v : Value) : (merge [A, B]).claim v = (merge [B, A]).claim v := by
  rw [claim_merge hA hB, claim_merge hB hA]
  cases hAv : A.claim v with
  | unclaimed => cases B.claim v <;> rfl
  | entry a => rw [unclaimed_of_apart hA hB apart hAv]
  | notKey name => rcases notKey_or_unclaimed B hAv with h | h <;> rw [h]

theorem claim_mapContents (f : Value → Value) (t : Table) (v : Value) :
    claim (Assoc.mapContents (Assoc.mapContents f) t) v =
      match t.claim v with
      | .entry a => .entry (f a)
      | claim => claim := by
  cases v with
  | action id effect operation tuple parameters =>
    simp only [claim, Assoc.get?_mapContents]
    by_cases heffect : effect.isKey
    · simp only [if_pos heffect]
      cases Assoc.get? t effect with
      | none => rfl
      | some entries =>
        by_cases hoperation : operation.isKey
        · simp only [Option.map_some, if_pos hoperation, Assoc.get?_mapContents]
          cases entries.get? operation <;> rfl
        · simp only [Option.map_some, if_neg hoperation]
    · simp only [if_neg heffect]
  | _ => rfl

theorem Regular.mapContents {t : Table} (h : t.Regular) (f : Value → Value) :
    Regular (Assoc.mapContents (Assoc.mapContents f) t) where
  effects := h.effects.mapContents _
  operations e he := by
    obtain ⟨e, ht, rfl⟩ := List.mem_map.mp he
    exact (h.operations e ht).mapContents f

def one (effect operation : String) (entry : Value) : Table :=
  [(.str effect, [(.str operation, entry)])]

theorem regular_one (effect operation : String) (entry : Value) :
    Regular (one effect operation entry) where
  effects := ⟨by simp [one, Value.exact_str], by simp [one]⟩
  operations e he := by
    obtain rfl : e = (.str effect, [(.str operation, entry)]) := by simpa [one] using he
    exact ⟨by simp [Value.exact_str], by simp⟩

theorem claim_one {effect operation : String} {entry v f : Value}
    (h : (one effect operation entry).claim v = .entry f) : f = entry := by
  obtain ⟨e, he, x, hx, rfl⟩ := mem_of_claim h
  obtain rfl : e = (.str effect, [(.str operation, entry)]) := by simpa [one] using he
  obtain rfl : x = (.str operation, entry) := by simpa using hx
  rfl

end Table

end OneShot
