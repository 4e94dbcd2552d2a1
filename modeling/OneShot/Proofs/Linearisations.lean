import Mathlib.Data.List.Induction
import OneShot.Spec
import OneShot.Spec.Linearisation

/-!
# Linearisations and names in order

A merge of orders holds exactly what the orders hold, and a class with a single base is searched as
that base is. Names that are collected along the way are there once, in the order in which they
first come up.
-/

namespace OneShot.Spec

/-! ## Merged orders -/

section

variable {α : Type} [DecidableEq α]

theorem mem_dropHead {a x : α} {order : List α} :
    x ∈ order ↔ x ∈ dropHead a order ∨ x = a ∧ order.head? = some a := by
  cases order with
  | nil => simp [dropHead]
  | cons head rest =>
    by_cases h : head = a
    · subst h
      simp [dropHead, or_comm]
    · simp [dropHead, h]

theorem nextHead?_mem {orders : List (List α)} {a : α} (h : nextHead? orders = some a) :
    ∃ order ∈ orders, order.head? = some a :=
  List.mem_filterMap.mp (List.mem_of_find?_eq_some h)

theorem mergeOrders_cases {rounds : Nat} {orders : List (List α)} {l : List α}
    (h : mergeOrders rounds orders = some l) :
    (∀ order ∈ orders, order = []) ∧ l = [] ∨
      ∃ fewer a rest, rounds = fewer + 1 ∧ nextHead? orders = some a ∧ l = a :: rest ∧
        mergeOrders fewer (orders.map (dropHead a)) = some rest := by
  unfold mergeOrders at h
  split at h
  · rename_i empty
    obtain rfl := Option.some.inj h
    exact .inl ⟨by simpa using empty, rfl⟩
  · cases rounds with
    | zero => cases h
    | succ fewer =>
      cases next : nextHead? orders with
      | none => simp [next] at h
      | some a =>
        obtain ⟨rest, merged, rfl⟩ := Option.map_eq_some_iff.mp (by simpa only [next] using h)
        exact .inr ⟨fewer, a, rest, rfl, rfl, rfl, merged⟩

theorem mem_mergeOrders {rounds : Nat} {orders : List (List α)} {l : List α}
    (h : mergeOrders rounds orders = some l) (x : α) : x ∈ l ↔ ∃ order ∈ orders, x ∈ order := by
  induction rounds generalizing orders l with
  | zero =>
    obtain ⟨empty, rfl⟩ | ⟨fewer, a, rest, rounds, -⟩ := mergeOrders_cases h
    · simpa using fun order mem => by simp [empty order mem]
    · cases rounds
  | succ rounds ih =>
    obtain ⟨empty, rfl⟩ | ⟨fewer, a, rest, same, next, rfl, merged⟩ := mergeOrders_cases h
    · simpa using fun order mem => by simp [empty order mem]
    · obtain rfl := Nat.succ.inj same
      obtain ⟨first, there, head⟩ := nextHead?_mem next
      rw [List.mem_cons, ih merged]
      constructor
      · rintro (rfl | ⟨_, dropped, mem⟩)
        · exact ⟨first, there, List.mem_of_head? head⟩
        · obtain ⟨order, known, rfl⟩ := List.mem_map.mp dropped
          exact ⟨order, known, mem_dropHead.mpr (.inl mem)⟩
      · rintro ⟨order, known, mem⟩
        obtain mem | ⟨rfl, -⟩ := (mem_dropHead (a := a)).mp mem
        · exact .inr ⟨_, List.mem_map_of_mem known, mem⟩
        · exact .inl rfl

theorem mergeOrders_alone {rounds : Nat} {order l : List α}
    (h : mergeOrders rounds [order, []] = some l) : l = order := by
  induction rounds generalizing order l with
  | zero =>
    obtain ⟨empty, rfl⟩ | ⟨_, _, _, rounds, -⟩ := mergeOrders_cases h
    · exact (empty order List.mem_cons_self).symm
    · cases rounds
  | succ rounds ih =>
    obtain ⟨empty, rfl⟩ | ⟨fewer, a, rest, same, next, rfl, merged⟩ := mergeOrders_cases h
    · exact (empty order List.mem_cons_self).symm
    · obtain rfl := Nat.succ.inj same
      cases order with
      | nil => cases next
      | cons head tail =>
        have chosen := List.mem_of_find?_eq_some next
        obtain rfl : a = head := by simpa using chosen
        have dropped : [a :: tail, []].map (dropHead a) = [tail, []] := by simp [dropHead]
        rw [dropped] at merged
        rw [ih merged]

theorem linearise_eq_some {bases l : List α} {order : α → List α}
    (h : linearise bases order = some l) :
    ∃ rounds, mergeOrders rounds (bases.map order ++ [bases]) = some l := by
  unfold linearise at h
  split at h
  · exact ⟨_, h⟩
  · cases h

theorem mem_linearise {bases l : List α} {order : α → List α}
    (h : linearise bases order = some l) (x : α) :
    x ∈ l ↔ x ∈ bases ∨ ∃ base ∈ bases, x ∈ order base := by
  obtain ⟨rounds, merged⟩ := linearise_eq_some h
  rw [mem_mergeOrders merged]
  simp only [List.mem_append, List.mem_map, List.mem_singleton]
  constructor
  · rintro ⟨_, ⟨base, mem, rfl⟩ | rfl, there⟩
    · exact .inr ⟨base, mem, there⟩
    · exact .inl there
  · rintro (there | ⟨base, mem, there⟩)
    · exact ⟨bases, .inr rfl, there⟩
    · exact ⟨order base, .inl ⟨base, mem, rfl⟩, there⟩

/-- A single base that starts its own order gives that order. -/
theorem linearise_single {base : α} {order : α → List α} {rest l : List α}
    (starts : order base = base :: rest) (h : linearise [base] order = some l) :
    l = order base := by
  obtain ⟨rounds, merged⟩ := linearise_eq_some h
  obtain ⟨empty, -⟩ | ⟨fewer, a, rest', -, next, rfl, left⟩ := mergeOrders_cases merged
  · have := empty [base] (by simp)
    cases this
  · obtain rfl : a = base := by simpa [starts] using List.mem_of_find?_eq_some next
    have dropped : ([a].map order ++ [[a]]).map (dropHead a) = [rest, []] := by
      simp [dropHead, starts]
    rw [dropped] at left
    rw [starts, mergeOrders_alone left]

end

/-! ## Names in the order of their first mention -/

section

variable {acc names : List String} {x y : String}

theorem mem_addNames : x ∈ names.foldl addName acc ↔ x ∈ acc ∨ x ∈ names := by
  induction names generalizing acc with
  | nil => simp
  | cons name names ih =>
    rw [List.foldl_cons, ih, addName]
    split
    · rename_i there
      simp only [List.contains_iff_mem] at there
      constructor
      · rintro (mem | mem)
        · exact .inl mem
        · exact .inr (List.mem_cons_of_mem _ mem)
      · rintro (mem | mem)
        · exact .inl mem
        · obtain rfl | mem := List.mem_cons.mp mem
          · exact .inl there
          · exact .inr mem
    · simp [or_assoc]

theorem nodup_addNames (once : acc.Nodup) : (names.foldl addName acc).Nodup := by
  induction names generalizing acc with
  | nil => exact once
  | cons name names ih =>
    refine ih ?_
    unfold addName
    split
    · exact once
    · rename_i new
      simp only [List.contains_iff_mem] at new
      refine List.nodup_append.mpr ⟨once, by simp, ?_⟩
      rintro a mem _ (_ | ⟨_, ⟨⟩⟩) rfl
      exact new mem

theorem prefix_addNames : acc <+: names.foldl addName acc := by
  induction names generalizing acc with
  | nil => exact List.prefix_rfl
  | cons name names ih =>
    refine List.IsPrefix.trans ?_ ih
    unfold addName
    split
    · exact List.prefix_rfl
    · exact List.prefix_append _ _

/-- One name is mentioned before another one comes up. -/
def Earlier (names : List String) (x y : String) : Prop :=
  ∃ before after, names = before ++ x :: after ∧ x ∉ before ∧ y ∉ before ∧ x ≠ y

theorem Earlier.append (h : Earlier names x y) (later : List String) :
    Earlier (names ++ later) x y := by
  obtain ⟨before, after, rfl, first, other, ne⟩ := h
  exact ⟨before, after ++ later, by simp, first, other, ne⟩

theorem Earlier.mem (h : Earlier names x y) : x ∈ names := by
  obtain ⟨before, after, rfl, -⟩ := h
  simp

theorem Earlier.after {skipped : List String} (h : Earlier names x y) (first : x ∉ skipped)
    (other : y ∉ skipped) : Earlier (skipped ++ names) x y := by
  obtain ⟨before, after, rfl, first', other', ne⟩ := h
  exact ⟨skipped ++ before, after, by simp, by simp [first, first'], by simp [other, other'], ne⟩

theorem Earlier.of_append {later : List String} (h : Earlier (names ++ later) x y) :
    Earlier names x y ∨ x ∉ names ∧ y ∉ names ∧ Earlier later x y := by
  obtain ⟨before, after, split, first, other, ne⟩ := h
  obtain ⟨more, rfl, rest⟩ | ⟨more, own, rest⟩ := List.append_eq_append_iff.mp split
  · exact .inr ⟨fun mem => first (List.mem_append_left _ mem),
      fun mem => other (List.mem_append_left _ mem), more, after, rest,
      fun mem => first (List.mem_append_right _ mem),
      fun mem => other (List.mem_append_right _ mem), ne⟩
  · cases more with
    | nil =>
      rw [List.append_nil] at own
      rw [List.nil_append] at rest
      exact .inr ⟨own ▸ first, own ▸ other, [], after, rest.symm, List.not_mem_nil,
        List.not_mem_nil, ne⟩
    | cons head more =>
      obtain ⟨rfl, -⟩ := List.cons.inj rest
      exact .inl ⟨before, more, own, first, other, ne⟩

theorem earlier_of_new (there : x ∈ names) (new : y ∉ names) : Earlier names x y := by
  obtain ⟨before, after, rfl, first⟩ := List.eq_append_cons_of_mem there
  refine ⟨before, after, rfl, first, fun mem => new (List.mem_append_left _ mem), ?_⟩
  rintro rfl
  exact new there

theorem earlier_addNames (names : List String) :
    (names.foldl addName []).Pairwise (Earlier names) := by
  induction names using List.reverseRecOn with
  | nil => exact .nil
  | append_singleton names name ih =>
    have kept := ih.imp fun h => Earlier.append h [name]
    rw [List.foldl_append, List.foldl_cons, List.foldl_nil, addName]
    split
    · exact kept
    · rename_i new
      simp only [List.contains_iff_mem, mem_addNames, List.not_mem_nil, false_or] at new
      refine List.pairwise_append.mpr ⟨kept, List.pairwise_singleton _ _, ?_⟩
      rintro a mem _ (_ | ⟨_, ⟨⟩⟩)
      exact (earlier_of_new ((mem_addNames.mp mem).resolve_left List.not_mem_nil) new).append _

theorem Earlier.of_addNames (h : Earlier (names.foldl addName []) x y) : Earlier names x y := by
  have collected : ∀ name, name ∈ names.foldl addName [] ↔ name ∈ names := by simp [mem_addNames]
  have there := (collected x).mp h.mem
  by_cases known : y ∈ names
  · obtain ⟨before, after, split, -, other, ne⟩ := h
    have later := (collected y).mpr known
    have ordered := earlier_addNames names
    rw [split, List.mem_append, List.mem_cons] at later
    rw [split] at ordered
    have after_x := (later.resolve_left other).resolve_left (Ne.symm ne)
    exact List.rel_of_pairwise_cons (List.pairwise_append.mp ordered).2.1 after_x
  · exact earlier_of_new there known

theorem Earlier.of_filter {shown : String → Bool} (h : Earlier (names.filter shown) x y)
    (shown_y : shown y = true) : Earlier names x y := by
  obtain ⟨before, after, split, first, other, ne⟩ := h
  obtain ⟨before', after', rfl, rfl, rest⟩ := List.filter_eq_append_iff.mp split
  obtain ⟨skipped, after₁, rfl, hidden, shown_x, -⟩ := List.filter_eq_cons_iff.mp rest
  refine ⟨before' ++ skipped, after₁, by simp, ?_, ?_, ne⟩
  · intro mem
    obtain mem | mem := List.mem_append.mp mem
    · exact first (List.mem_filter.mpr ⟨mem, shown_x⟩)
    · exact hidden x mem shown_x
  · intro mem
    obtain mem | mem := List.mem_append.mp mem
    · exact other (List.mem_filter.mpr ⟨mem, shown_y⟩)
    · exact hidden y mem shown_y

theorem Earlier.of_flatMap {β : Type} {lists : β → List String} {row : List β}
    (h : Earlier (row.flatMap lists) x y) :
    ∃ before b after, row = before ++ b :: after ∧ x ∈ lists b ∧
      (∀ a ∈ before, x ∉ lists a ∧ y ∉ lists a) ∧ (y ∉ lists b ∨ Earlier (lists b) x y) := by
  induction row with
  | nil => cases h.mem
  | cons b row ih =>
    rw [List.flatMap_cons] at h
    obtain own | ⟨first, other, rest⟩ := h.of_append
    · exact ⟨[], b, row, rfl, own.mem, by simp, .inr own⟩
    · obtain ⟨skipped, c, later, rfl, there, none, rest⟩ := ih rest
      refine ⟨b :: skipped, c, later, rfl, there, ?_, rest⟩
      rintro a (_ | ⟨_, mem⟩)
      · exact ⟨first, other⟩
      · exact none a mem

end

end OneShot.Spec
