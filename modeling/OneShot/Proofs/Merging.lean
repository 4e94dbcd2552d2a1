import Mathlib.Data.List.Induction
import OneShot.Proofs.Tables

/-!
# Laws of merging

Merging is associative, the empty table is its unit, and a table over itself changes nothing. The
names of a merged table are in the order in which they first come up in the tables. All this holds
of each of the two levels.
-/

namespace OneShot

namespace Assoc

/-! ## Keys where they first come up -/

/-- The keys that are not the same as one before them. -/
def firsts : List Value → List Value
  | [] => []
  | k :: ks => k :: (firsts ks).filter fun q => !k.same q

/-- No key is the same as a later one. -/
def Once (ks : List Value) : Prop := ks.Pairwise fun k q => k.same q = false

section

variable {ks more : List Value}

theorem mem_firsts {q : Value} (h : q ∈ firsts ks) : q ∈ ks := by
  induction ks with
  | nil => exact h
  | cons k ks ih =>
    obtain rfl | h := List.mem_cons.mp h
    · exact List.mem_cons_self
    · exact List.mem_cons_of_mem k (ih (List.mem_filter.mp h).1)

theorem firsts_once : Once (firsts ks) := by
  induction ks with
  | nil => exact .nil
  | cons k ks ih =>
    refine List.pairwise_cons.mpr ⟨fun q hq => ?_, ih.sublist List.filter_sublist⟩
    simpa using (List.mem_filter.mp hq).2

theorem firsts_of_once (once : Once ks) : firsts ks = ks := by
  induction ks with
  | nil => rfl
  | cons k ks ih =>
    obtain ⟨other, once⟩ := List.pairwise_cons.mp once
    rw [firsts, ih once, List.filter_eq_self.mpr fun q hq => by simp [other q hq]]

theorem firsts_append :
    firsts (ks ++ more) = firsts ks ++ (firsts more).filter fun q => ks.all (!·.same q) := by
  induction ks with
  | nil => exact (List.filter_eq_self.mpr fun _ _ => rfl).symm
  | cons k ks ih => simp [firsts, ih, List.filter_append, List.filter_filter]

theorem firsts_append_firsts : firsts (ks ++ firsts more) = firsts (ks ++ more) := by
  rw [firsts_append, firsts_append, firsts_of_once firsts_once]

section

variable (exact : ∀ k ∈ ks, k.Exact)

include exact

theorem first_of_mem {k : Value} (mem : k ∈ ks) : ∃ q ∈ firsts ks, q.same k = true := by
  induction ks with
  | nil => cases mem
  | cons first ks ih =>
    by_cases h : first.same k = true
    · exact ⟨first, List.mem_cons_self, h⟩
    · obtain rfl | mem := List.mem_cons.mp mem
      · exact absurd (exact k List.mem_cons_self).refl h
      · obtain ⟨q, hq, same⟩ := ih (fun k hk => exact k (List.mem_cons_of_mem _ hk)) mem
        have apart : first.same q = false := by
          rw [← Bool.not_eq_true]
          exact fun taken => h ((((exact first List.mem_cons_self).same q k taken).trans same))
        exact ⟨q, List.mem_cons_of_mem _ (List.mem_filter.mpr ⟨hq, by simp [apart]⟩), same⟩

theorem firsts_self : firsts (ks ++ ks) = firsts ks := by
  rw [firsts_append, List.filter_eq_nil_iff.mpr, List.append_nil]
  intro q hq
  rw [List.all_eq_true]
  intro none
  have mem := mem_firsts hq
  simpa [(exact q mem).refl] using none q mem

theorem firsts_firsts_append : firsts (firsts ks ++ more) = firsts (ks ++ more) := by
  rw [firsts_append, firsts_append, firsts_of_once firsts_once]
  refine congrArg _ (List.filter_congr fun q _ => ?_)
  rw [Bool.eq_iff_iff, List.all_eq_true, List.all_eq_true]
  constructor
  · intro h k mem
    obtain ⟨k', mem', same⟩ := first_of_mem exact mem
    rw [← (exact k' (mem_firsts mem')).same k q same]
    exact h k' mem'
  · exact fun h k mem => h k (mem_firsts mem)

end

end

/-! ## Equal maps -/

section

variable {α : Type} {m n : Assoc α}

theorem regular_iff : m.Regular ↔ (∀ k ∈ m.keys, k.Exact) ∧ Once m.keys := by
  unfold Once keys
  rw [List.pairwise_map]
  refine ⟨fun h => ⟨?_, h.once⟩, fun h => ⟨fun e he => ?_, h.2⟩⟩
  · rintro k hk
    obtain ⟨e, he, rfl⟩ := List.mem_map.mp hk
    exact h.exact e he
  · exact h.1 e.1 (List.mem_map_of_mem he)

theorem ext_of_keys (regular : m.Regular) (keys : m.keys = n.keys)
    (contents : ∀ q, m.get? q = n.get? q) : m = n := by
  induction m generalizing n with
  | nil => exact (List.map_eq_nil_iff.mp keys.symm).symm
  | cons e m ih =>
    cases n with
    | nil => cases keys
    | cons f n =>
      obtain ⟨key, rest⟩ := List.cons.inj keys
      have other : Regular (f :: n) := regular_iff.mpr (keys ▸ regular_iff.mp regular)
      have here := contents e.1
      have same := (regular.exact e List.mem_cons_self).refl
      rw [get?_cons, get?_cons, ← show e.1 = f.1 from key, if_pos same, if_pos same] at here
      obtain rfl : e = f := Prod.ext key (Option.some.inj here)
      refine congrArg (e :: ·) (ih regular.tail rest fun q => ?_)
      by_cases h : e.1.same q = true
      · rw [regular.get?_tail h, other.get?_tail h]
      · simpa only [get?_cons, if_neg h] using contents q

/-! ## Entries put over others -/

theorem keys_put (once : Once m.keys) (k : Value) (a : α) :
    (m.put k a).keys = firsts (m.keys ++ [k]) := by
  rw [firsts_append, firsts_of_once once]
  clear once
  induction m with
  | nil => rfl
  | cons e m ih =>
    unfold put
    by_cases h : e.1.same k = true
    · simp [keys, firsts, h]
    · rw [if_neg h]
      rw [Bool.not_eq_true] at h
      simp only [keys, List.map_cons, List.cons_append, List.all_cons] at ih ⊢
      rw [ih]
      simp only [firsts, List.filter_cons, List.filter_nil, h, Bool.not_false, Bool.true_and]

variable {mix : Option α → α → α} {other : Assoc α}

theorem Regular.keys_blend (regular : m.Regular) (regular' : other.Regular) :
    (blend mix m other).keys = firsts (m.keys ++ other.keys) := by
  unfold blend
  induction other generalizing m with
  | nil =>
    rw [show keys ([] : Assoc α) = [] from rfl, List.append_nil]
    exact (firsts_of_once (regular_iff.mp regular).2).symm
  | cons e other ih =>
    have exact : ∀ k ∈ m.keys ++ [e.1], k.Exact := by
      intro k hk
      obtain hk | hk := List.mem_append.mp hk
      · exact (regular_iff.mp regular).1 k hk
      · exact List.mem_singleton.mp hk ▸ regular'.exact e List.mem_cons_self
    have put := keys_put (regular_iff.mp regular).2 e.1 (mix (m.get? e.1) e.2)
    have regular_put : (m.put e.1 (mix (m.get? e.1) e.2)).Regular := by
      rw [regular_iff, put]
      exact ⟨fun k hk => exact k (mem_firsts hk), firsts_once⟩
    rw [List.foldl_cons, ih regular_put regular'.tail, put, firsts_firsts_append exact]
    simp [keys]

theorem Regular.blend (regular : m.Regular) (regular' : other.Regular) :
    (blend mix m other).Regular := by
  refine regular_iff.mpr ⟨fun k hk => ?_, regular.keys_blend regular' ▸ firsts_once⟩
  obtain ⟨e, he, rfl⟩ := List.mem_map.mp hk
  exact exact_blend regular.exact regular'.exact e he

theorem Regular.get?_of_mem (regular : m.Regular) {e : Value × α} (mem : e ∈ m) :
    m.get? e.1 = some e.2 := by
  induction m with
  | nil => cases mem
  | cons f m ih =>
    rw [get?_cons]
    obtain rfl | mem := List.mem_cons.mp mem
    · rw [if_pos (regular.exact e List.mem_cons_self).refl]
    · have apart := (List.pairwise_cons.mp regular.once).1 _ mem
      rw [if_neg (by simp [apart])]
      exact ih regular.tail mem

theorem Regular.mem_iff (regular : m.Regular) {k : Value}
    (spelled : ∀ q : Value, q.same k = true → q = k) {a : α} : (k, a) ∈ m ↔ m.get? k = some a := by
  refine ⟨fun mem => regular.get?_of_mem mem, fun found => ?_⟩
  obtain ⟨e, mem, same, rfl⟩ := get?_eq_of_mem found
  exact spelled _ same ▸ mem

variable {o : Assoc α}

theorem blend_assoc (hm : m.Regular) (hn : n.Regular) (ho : o.Regular)
    (law : ∀ q b, o.get? q = some b →
      mix (mixed mix (m.get? q) (n.get? q)) b = mix (m.get? q) (mix (n.get? q) b)) :
    Assoc.blend mix (Assoc.blend mix m n) o = Assoc.blend mix m (Assoc.blend mix n o) := by
  have exact : ∀ k ∈ m.keys ++ n.keys, k.Exact := fun k hk =>
    (List.mem_append.mp hk).elim ((regular_iff.mp hm).1 k) ((regular_iff.mp hn).1 k)
  refine ext_of_keys ((hm.blend hn).blend ho) ?_ fun q => ?_
  · rw [(hm.blend hn).keys_blend ho, hm.keys_blend hn, hm.keys_blend (hn.blend ho),
      hn.keys_blend ho, firsts_firsts_append exact, firsts_append_firsts, List.append_assoc]
  · rw [get?_blend (hm.blend hn).exact ho, get?_blend hm.exact hn,
      get?_blend hm.exact (hn.blend ho), get?_blend hn.exact ho]
    cases hb : o.get? q with
    | none => rfl
    | some b => exact congrArg some (law q b hb)

theorem blend_self (hm : m.Regular) (law : ∀ q a, m.get? q = some a → mix (some a) a = a) :
    Assoc.blend mix m m = m := by
  refine ext_of_keys (hm.blend hm) ?_ fun q => ?_
  · rw [hm.keys_blend hm, firsts_self (regular_iff.mp hm).1, firsts_of_once (regular_iff.mp hm).2]
  · rw [get?_blend hm.exact hm]
    cases ha : m.get? q with
    | none => rfl
    | some a => exact congrArg some (law q a ha)

theorem regular_nil : Regular ([] : Assoc α) := ⟨by simp, .nil⟩

theorem nil_blend (hm : m.Regular) (law : ∀ q a, m.get? q = some a → mix none a = a) :
    Assoc.blend mix [] m = m := by
  refine ext_of_keys (regular_nil.blend hm) ?_ fun q => ?_
  · rw [regular_nil.keys_blend hm]
    exact firsts_of_once (regular_iff.mp hm).2
  · rw [get?_blend regular_nil.exact hm]
    cases ha : m.get? q with
    | none => rfl
    | some a => exact congrArg some (law q a ha)

end

section

variable {α : Type} {m n o : Assoc α}

theorem update_assoc (hm : m.Regular) (hn : n.Regular) (ho : o.Regular) :
    (m.update n).update o = m.update (n.update o) := by
  simp only [update_eq]
  exact blend_assoc hm hn ho fun _ _ _ => rfl

theorem update_self (hm : m.Regular) : m.update m = m :=
  (update_eq m m).trans (blend_self hm fun _ _ _ => rfl)

theorem nil_update (hm : m.Regular) : update [] m = m :=
  (update_eq [] m).trans (nil_blend hm fun _ _ _ => rfl)

theorem Regular.update (hm : m.Regular) (hn : n.Regular) : (m.update n).Regular :=
  update_eq m n ▸ hm.blend hn

theorem Regular.keys_update (hm : m.Regular) (hn : n.Regular) :
    (m.update n).keys = firsts (m.keys ++ n.keys) :=
  update_eq m n ▸ hm.keys_blend hn

end

end Assoc

/-! ## Tables -/

namespace Table

open Assoc

variable {t u s : Table}

theorem Regular.entries (h : t.Regular) (q : Value) : ((Assoc.get? t q).getD []).Regular := by
  cases found : Assoc.get? t q with
  | none => exact regular_nil
  | some entries => exact h.of_get? found

theorem Regular.overlay (ht : t.Regular) (hu : u.Regular) : (t.overlay u).Regular where
  effects := overlay_eq t u ▸ ht.effects.blend hu.effects
  operations e he := by
    have effects : Assoc.Regular (t.overlay u) := overlay_eq t u ▸ ht.effects.blend hu.effects
    have found := effects.get?_of_mem he
    rw [get?_overlay ht.effects.exact hu.effects] at found
    cases covers : Assoc.get? u e.1 with
    | none =>
      rw [covers] at found
      exact ht.of_get? found
    | some entries =>
      rw [covers] at found
      obtain same := Option.some.inj found
      exact same ▸ (ht.entries e.1).update (hu.of_get? covers)

theorem overlay_assoc (ht : t.Regular) (hu : u.Regular) (hs : s.Regular) :
    (t.overlay u).overlay s = t.overlay (u.overlay s) := by
  simp only [overlay_eq]
  refine blend_assoc ht.effects hu.effects hs.effects fun q entries found => ?_
  have under := ht.entries q
  have last := hs.of_get? found
  cases between : Assoc.get? u q with
  | none => exact congrArg (Assoc.update _) (nil_update last).symm
  | some entries' => exact update_assoc under (hu.of_get? between) last

theorem overlay_self (ht : t.Regular) : t.overlay t = t :=
  (overlay_eq t t).trans
    (blend_self ht.effects fun _ _ found => update_self (ht.of_get? found))

theorem nil_overlay (ht : t.Regular) : overlay [] t = t :=
  (overlay_eq [] t).trans
    (nil_blend ht.effects fun _ _ found => nil_update (ht.of_get? found))

/-! ## Many tables -/

variable {ts us : List Table}

theorem merge_snoc (ts : List Table) (t : Table) : merge (ts ++ [t]) = (merge ts).overlay t := by
  simp only [merge, List.foldl_append, List.foldl_cons, List.foldl_nil]

theorem Regular.merge (h : ∀ t ∈ ts, t.Regular) : (merge ts).Regular := by
  induction ts using List.reverseRecOn with
  | nil => exact ⟨regular_nil, by simp [Table.merge]⟩
  | append_singleton ts t ih =>
    obtain ⟨earlier, last⟩ := List.forall_mem_append.mp h
    rw [merge_snoc]
    exact (ih earlier).overlay (last t List.mem_cons_self)

theorem merge_two (ht : t.Regular) (u : Table) : merge [t, u] = t.overlay u :=
  congrArg (overlay · u) (nil_overlay ht)

/-- Tables can be merged in groups. -/
theorem merge_merge (hts : ∀ t ∈ ts, t.Regular) (hus : ∀ t ∈ us, t.Regular) :
    merge [merge ts, merge us] = merge (ts ++ us) := by
  rw [merge_two (Regular.merge hts)]
  induction us using List.reverseRecOn with
  | nil => rw [List.append_nil]; rfl
  | append_singleton us u ih =>
    obtain ⟨earlier, last⟩ := List.forall_mem_append.mp hus
    rw [merge_snoc, ← List.append_assoc, merge_snoc, ← ih earlier,
      overlay_assoc (Regular.merge hts) (Regular.merge earlier) (last u List.mem_cons_self)]

theorem keys_merge (h : ∀ t ∈ ts, t.Regular) :
    Assoc.keys (merge ts) = firsts (ts.flatMap Assoc.keys) := by
  induction ts using List.reverseRecOn with
  | nil => rfl
  | append_singleton ts t ih =>
    obtain ⟨earlier, last⟩ := List.forall_mem_append.mp h
    have ht := last t List.mem_cons_self
    have exact : ∀ k ∈ ts.flatMap Assoc.keys, k.Exact := by
      intro k hk
      obtain ⟨u, hu, hk⟩ := List.mem_flatMap.mp hk
      exact (regular_iff.mp (earlier u hu).effects).1 k hk
    rw [merge_snoc, overlay_eq, (Regular.merge earlier).effects.keys_blend ht.effects, ih earlier,
      firsts_firsts_append exact, List.flatMap_append]
    simp

/-- The operations that a table has for an effect. -/
def operations (effect : Value) (t : Table) : List Value :=
  Assoc.keys ((Assoc.get? t effect).getD [])

theorem operations_merge (h : ∀ t ∈ ts, t.Regular) (effect : Value) :
    operations effect (merge ts) = firsts (ts.flatMap (operations effect)) := by
  induction ts using List.reverseRecOn with
  | nil => rfl
  | append_singleton ts t ih =>
    obtain ⟨earlier, last⟩ := List.forall_mem_append.mp h
    have ht := last t List.mem_cons_self
    have regular := Regular.merge earlier
    have exact : ∀ k ∈ ts.flatMap (operations effect), k.Exact := by
      intro k hk
      obtain ⟨u, hu, hk⟩ := List.mem_flatMap.mp hk
      exact (regular_iff.mp ((earlier u hu).entries effect)).1 k hk
    have step : operations effect (merge (ts ++ [t])) =
        firsts (operations effect (merge ts) ++ operations effect t) := by
      simp only [operations]
      rw [merge_snoc, get?_overlay regular.effects.exact ht.effects]
      have known := regular_iff.mp (regular.entries effect)
      cases found : Assoc.get? t effect with
      | none =>
        rw [Option.getD_none, show keys ([] : Assoc Value) = [] from rfl, List.append_nil,
          firsts_of_once known.2]
        rfl
      | some entries => exact (regular.entries effect).keys_update (ht.of_get? found)
    rw [step, ih earlier, firsts_firsts_append exact, List.flatMap_append]
    simp

/-! ## Lookups -/

/-- The entry of a table for an operation of an effect. -/
def answer? (t : Table) (effect operation : Value) : Option Value :=
  (Assoc.get? t effect).bind (·.get? operation)

theorem answer?_overlay (ht : t.Regular) (hu : u.Regular) (effect operation : Value) :
    (t.overlay u).answer? effect operation =
      (u.answer? effect operation).or (t.answer? effect operation) := by
  simp only [answer?, get?_overlay ht.effects.exact hu.effects]
  cases found : Assoc.get? u effect with
  | none => rfl
  | some entries =>
    have under := ht.entries effect
    simp only [covered, Option.bind_some]
    rw [Assoc.get?_update under.exact (hu.of_get? found)]
    cases Assoc.get? t effect <;> rfl

/-- The last table that has an entry decides. -/
theorem answer?_merge (h : ∀ t ∈ ts, t.Regular) (effect operation : Value) :
    (merge ts).answer? effect operation =
      ts.reverse.findSome? fun t => t.answer? effect operation := by
  induction ts using List.reverseRecOn with
  | nil => rfl
  | append_singleton ts t ih =>
    obtain ⟨earlier, last⟩ := List.forall_mem_append.mp h
    rw [merge_snoc, answer?_overlay (Regular.merge earlier) (last t List.mem_cons_self),
      List.reverse_append, List.reverse_singleton, List.singleton_append, List.findSome?_cons,
      ih earlier]
    cases t.answer? effect operation <;> rfl

end Table

end OneShot
