import OneShot.Proofs.Apart
import OneShot.Proofs.Mappings

/-!
# Tables are snapshots

A handling keeps the table that it has read when it was made. So it makes no difference to it what
becomes of the mappings that the table was read from, whoever changes them.
-/

namespace OneShot.World

variable {L : Language} {hidden : Nat → Prop}

/-! ## Tables that are read -/

/-- The entries of the effects of a table, which are mappings themselves. -/
def HoldsAll (w : World L) (entries : Assoc Value) (table : Table) : Prop :=
  List.Forall₂ (fun entry part => entry.1 = part.1 ∧ w.mapping? entry.2 = some part.2) entries table

/-- What a table of two levels of mappings holds. -/
def Holds (w : World L) (v : Value) (table : Table) : Prop :=
  ∃ entries, w.mapping? v = some entries ∧ w.HoldsAll entries table

theorem readEntries_holds {w : World L} {entries : Assoc Value} {table : Table}
    (h : w.HoldsAll entries table) : readEntries entries w = (.ok table, w) := by
  induction h with
  | nil => rfl
  | @cons entry part entries table first _ ih =>
    obtain ⟨effect, v⟩ := entry
    obtain ⟨rfl, found⟩ := first
    simp only [readEntries]
    rw [Exec.bind_ok (read_mapping found)]
    exact Exec.bind_ok ih

theorem readTable_holds {w : World L} {v : Value} {table : Table} (h : w.Holds v table) :
    readTable v w = (.ok table, w) := by
  obtain ⟨entries, found, parts⟩ := h
  rw [readTable, Exec.bind_ok (read_mapping found)]
  exact readEntries_holds parts

theorem isSome_mapping? (w w' : World L) (v : Value) :
    (w.mapping? v).isSome = (w'.mapping? v).isSome := by
  cases v with
  | instanceOf id cls className callable own => cases own <;> rfl
  | _ => rfl

/-! ## Tables that are made -/

theorem dict_addDict (entries : Assoc Value) (w : World L) :
    (w.addDict entries).2.dict w.dicts.next = entries ∧
      ∀ d < w.dicts.next, (w.addDict entries).2.dict d = w.dict d := by
  refine ⟨?_, fun d hd => ?_⟩
  · exact congrArg (Option.getD · []) (Pool.get?_add w.dicts entries)
  · exact congrArg (Option.getD · []) (Pool.get?_add_of_lt w.dicts entries hd)

def writeParts (t : Table) : Exec (World L) (Assoc Value) :=
  t.mapM fun (effect, entries) => do return (effect, ← Exec.alter (addDict entries))

theorem writeParts_cons (effect : Value) (entries : Assoc Value) (t : Table) :
    (writeParts ((effect, entries) :: t) : Exec (World L) (Assoc Value)) = (do
      let v ← Exec.alter (addDict entries)
      let parts ← writeParts t
      return (effect, v) :: parts) := by
  simp only [writeParts, List.mapM_cons, bind_assoc, pure_bind]

theorem writeParts_holds (t : Table) (w : World L) :
    ∃ parts w', writeParts t w = (.ok parts, w') ∧ w.dicts.next ≤ w'.dicts.next ∧
      (∀ d < w.dicts.next, w'.dict d = w.dict d) ∧
      ∀ w₁ : World L, (∀ d, w.dicts.next ≤ d → d < w'.dicts.next → w₁.dict d = w'.dict d) →
        w₁.HoldsAll parts t := by
  induction t generalizing w with
  | nil => exact ⟨[], w, rfl, Nat.le_refl _, fun _ _ => rfl, fun _ _ => .nil⟩
  | cons part t ih =>
    obtain ⟨effect, entries⟩ := part
    obtain ⟨written, old⟩ := dict_addDict entries w
    have next : (w.addDict entries).2.dicts.next = w.dicts.next + 1 := Pool.next_add _ _
    obtain ⟨parts, w', run, grown, kept, holds⟩ := ih (w.addDict entries).2
    refine ⟨(effect, .dict w.dicts.next) :: parts, w', ?_, by omega, fun d hd => ?_,
      fun w₁ same => ?_⟩
    · have added : Exec.alter (addDict entries) w =
          (.ok (.dict w.dicts.next), (w.addDict entries).2) := rfl
      rw [writeParts_cons, Exec.bind_ok added, Exec.bind_ok run]
      rfl
    · exact (kept d (by omega)).trans (old d hd)
    · refine .cons ⟨rfl, congrArg some ?_⟩ (holds w₁ fun d hd => same d (by omega))
      exact (same _ (Nat.le_refl _) (by omega)).trans ((kept _ (by omega)).trans written)

/-- The mappings of a table are new. Whatever becomes of the older ones, the table holds the
same. -/
theorem writeTable_holds (t : Table) (w : World L) :
    ∃ v w', writeTable t w = (.ok v, w') ∧
      ∀ w₁ : World L, (∀ d, w.dicts.next ≤ d → w₁.dict d = w'.dict d) → w₁.Holds v t := by
  obtain ⟨parts, w', run, grown, -, holds⟩ := writeParts_holds t w
  obtain ⟨written, old⟩ := dict_addDict parts w'
  refine ⟨.dict w'.dicts.next, (w'.addDict parts).2, Exec.bind_ok run, fun w₁ same => ?_⟩
  refine ⟨parts, congrArg some ((same _ grown).trans written), holds w₁ fun d hd lt => ?_⟩
  exact (same d hd).trans (old d lt)

/-! ## Handling with a snapshot -/

theorem life_addWrapper (source wrapper n : Nat) (w : World L) :
    (lifeCell n).get (w.addWrapper source wrapper) = (lifeCell n).get w := by
  cases found : w.computations.get? source with
  | none => simp only [addWrapper, found]
  | some c =>
    simp only [addWrapper, found, lifeCell]
    by_cases same : source = n
    · subst same
      rw [Pool.get?_set_self found, found]
    · rw [Pool.get?_set_of_ne _ _ same]

theorem life_addComputation (name : String) (body : Body L) (w : World L) :
    (lifeCell w.computations.next).get (w.addComputation name body).2 = .fresh body := by
  have added := w.computations.get?_next { name, life := .fresh body }
  cases source : body.source? with
  | none => simp only [addComputation, source, lifeCell, added]
  | some n =>
    simp only [addComputation, source, life_addWrapper]
    simp only [lifeCell, added]

theorem life_addComputation_of_lt (name : String) (body : Body L) {w : World L} {m : Nat}
    (old : m < w.computations.next) :
    (lifeCell m).get (w.addComputation name body).2 = (lifeCell m).get w := by
  have kept := w.computations.get?_add_of_lt { name, life := .fresh body } old
  cases source : body.source? with
  | none => simp only [addComputation, source, lifeCell, kept]
  | some c =>
    simp only [addComputation, source, life_addWrapper]
    simp only [lifeCell, kept]

theorem fst_addComputation (name : String) (body : Body L) (w : World L) :
    (w.addComputation name body).1 = .computation w.computations.next := by
  cases source : body.source? <;> simp only [addComputation, source] <;> rfl

theorem Apart.addComputation {w w' : World L} (h : Apart hidden w w') (name : String)
    (body : Body L) :
    Apart hidden (w.addComputation name body).2 (w'.addComputation name body).2 := by
  refine h.change (fun w => (w.addComputation name body).2) (fun dicts events => ?_) ?_
  all_goals
    cases source : body.source? with
    | none => simp only [World.addComputation, source, swap]
    | some n =>
      simp only [World.addComputation, source, addWrapper, swap]
      cases ((w.computations.add { name, life := .fresh body }).2.get? n) <;> rfl

/-- Handling a source with a table gives this computation and leaves this world, in either order
unless the source is a mapping too. -/
def Handled (host : Host (World L)) (source v : Value) (w : World L) (n : Nat) (w' : World L) :
    Prop :=
  handle host source v w = (.ok (.computation n), w') ∧
    (w.mapping? source = none → handle host v source w = (.ok (.computation n), w'))

/-- A source is handled with what the table holds once the source is a computation. -/
theorem handled_holds {host : Host (World L)} {source v : Value} {w w₁ : World L} {c : Nat}
    {table : Table} (made : toComputation host source w = (.ok c, w₁)) (h : w₁.Holds v table) :
    Handled host source v w w₁.computations.next
      (w₁.addComputation "_handle" (.handling c table .start)).2 := by
  have isTable : isMapping v w = (.ok true, w) := by
    obtain ⟨entries, found, -⟩ := h
    exact congrArg (fun b => (Result.ok b, w)) ((isSome_mapping? w w₁ v).trans (by rw [found]; rfl))
  have handled : handleWith host source (readTable v) w =
      (.ok (.computation w₁.computations.next),
        (w₁.addComputation "_handle" (.handling c table .start)).2) := by
    rw [handleWith, Exec.bind_ok made, Exec.bind_ok (readTable_holds h),
      ← fst_addComputation "_handle" (.handling c table .start)]
    rfl
  constructor
  · rw [handle, Exec.bind_ok isTable]
    exact handled
  · intro other
    have isSource : isMapping source w = (.ok false, w) := by
      simp only [isMapping, Exec.read, other]
      rfl
    rw [handle, Exec.bind_ok isSource, if_neg Bool.false_ne_true, Exec.bind_ok isTable]
    exact handled

/-- From these worlds on, a driver sees the same in both runs, whatever it drives and however it
changes the hidden mappings in between. -/
def Indistinct (hidden : Nat → Prop) (bound : Nat) (s s' : Surroundings L) (w w' : World L) :
    Prop :=
  ∀ turns turns', List.Forall₂ (Surroundings.SameTurn hidden) turns turns' →
    let ended := takeTurns (s.computation bound) id turns w
    let ended' := takeTurns (s'.computation bound) id turns' w'
    Result.Matches (SameError L hidden) (List.Forall₂ (Sight.Matches (SameError L hidden)))
      ended.1 ended'.1 ∧ Apart hidden ended.2 ended'.2

/-- A table in use is a snapshot. Handling keeps what the table holds at both levels when handling
begins. From then on it makes no difference to a run what becomes of the table, whether the driver,
an entry, the computation of a handler or the source changes it. In a table that has been merged
nothing is shared with the tables that it was made of, so they can be changed even before handling
begins. What the entries are is not hidden: an entry that can change is seen as it is. -/
theorem table_is_snapshot {bound : Nat} {s s' : Surroundings L} (twins : s.Twins hidden bound s')
    (v : Value) :
    (∀ source w c w₁ table, toComputation s.host source w = (.ok c, w₁) → w₁.Holds v table →
      ∃ n w₂, Handled s.host source v w n w₂ ∧
        (lifeCell n).get w₂ = .fresh (.handling c table .start) ∧
        Indistinct hidden bound s s' w₂ w₂) ∧
    ∀ steps tables w w₂, merge s.host steps tables w = (.ok v, w₂) →
      ∃ parts w₁, tables.mapM (readAny s.host steps) w = (.ok parts, w₁) ∧
        ∀ w₂' c, Apart (fun d => hidden d ∧ d < w₁.dicts.next) w₂ w₂' →
          ∃ n w₃ w₃', Handled s.host (.computation c) v w₂ n w₃ ∧
            Handled s'.host (.computation c) v w₂' n w₃' ∧
            (lifeCell n).get w₃ = .fresh (.handling c (Table.merge parts) .start) ∧
            (lifeCell n).get w₃' = .fresh (.handling c (Table.merge parts) .start) ∧
            Indistinct hidden bound s s' w₃ w₃' := by
  refine ⟨?_, ?_⟩
  · intro source w c w₁ table made holds
    exact ⟨_, _, handled_holds made holds, life_addComputation _ _ _,
      fun turns turns' same => twins.turns same _ _ (Apart.refl _)⟩
  · intro steps tables w w₂ merged
    obtain ⟨e, h, -⟩ | ⟨parts, w₁, reads, writes⟩ := (Exec.bind_eq_of (o := .ok v)).mp merged
    · cases h
    obtain ⟨_, _, run, holds⟩ := writeTable_holds (Table.merge parts) w₁
    obtain ⟨⟨⟩, ⟨⟩⟩ := Prod.mk.inj (run.symm.trans writes)
    refine ⟨parts, w₁, reads, fun w₂' c apart => ?_⟩
    -- The mappings of the merged table are newer than all that may be hidden here.
    have later : Apart hidden w₂ w₂' := apart.mono fun d hd => hd.1
    have holds' : w₂'.Holds v (Table.merge parts) :=
      holds w₂' fun d hd => apart.dict fun h => absurd h.2 (Nat.not_lt.mpr hd)
    have next := later.eq (fun w => w.computations.next) fun _ _ => rfl
    have given (host : Host (World L)) (w : World L) :
        toComputation host (.computation c) w = (.ok c, w) := rfl
    refine ⟨_, _, _, handled_holds (given _ w₂) (holds w₂ fun _ _ => rfl),
      next ▸ handled_holds (given _ w₂') holds', life_addComputation _ _ _,
      next ▸ life_addComputation _ _ _,
      fun turns turns' same => twins.turns same _ _ (later.addComputation _ _)⟩

namespace SmallSnapshot

def language : Language := ⟨Unit, Unit, Unit⟩

def program : Program language where
  call _ _ _ _ := return .nil
  advance _ _ _ _ := return .complete .nil
  delegate? _ := none
  names _ _ := false
  lost _ _ := []

/-- A source that changes the world before it asks, and completes with the answer. -/
def asking (change : World language → World language) : Surroundings language where
  program := program
  drive _ v :=
    match v with
    | .nil => do
      Exec.modify change
      return .suspended (.action 0 (.str "a") (.str "get") 0 [])
    | v => return .completed v
  call _ _ := return .nil

/-- Empties the table and what it holds for its effect. -/
def clear (w : World language) : World language := { w with dicts := (w.dicts.set 0 []).set 1 [] }

def start : World language :=
  { memory := ()
    dicts := ⟨#[[(.str "get", .int 5)], [(.str "a", .dict 0)]]⟩
    computations := ⟨#[{ name := "c", life := .fresh (.task ()) }]⟩ }

theorem twins_asking : (asking clear).Twins (· < 2) 2 (asking id) where
  drive _ v := by
    cases v with
    | nil =>
      refine (Exec.matches_modify ?_).next fun _ => Exec.matches_pure rfl
      rintro w _ ⟨dicts, events, rfl, next, agree⟩
      refine ⟨dicts, events, rfl, next.trans ?_, fun d hd => (agree d hd).trans ?_⟩
      · simp [clear, Pool.next, Pool.set]
      · refine congrArg (Option.getD · []) ?_
        rw [clear, Pool.get?_set_of_ne _ _ (by omega), Pool.get?_set_of_ne _ _ (by omega)]
    | _ => exact Exec.matches_pure rfl
  call _ _ := Exec.matches_pure rfl
  task _ _ := Exec.matches_pure rfl

end SmallSnapshot

open SmallSnapshot in
/-- The source empties the table and is answered from it. -/
theorem table_is_snapshot_small :
    ∃ w, Handled (asking clear).host (.computation 0) (.dict 1) start 1 w ∧
      let ended := takeTurns ((asking clear).computation 2) id [⟨1, id, .nil⟩] w
      ended.1 = .ok [.ok (.completed (.int 5))] ∧ ended.2.dict 1 = [] := by
  have holds : start.Holds (.dict 1) (singleTable "a" "get" (.int 5)) :=
    ⟨_, rfl, .cons ⟨rfl, rfl⟩ .nil⟩
  obtain ⟨n, w, handled, -, same⟩ :=
    (table_is_snapshot twins_asking (.dict 1)).1 (.computation 0) start 0 start _ rfl holds
  obtain ⟨⟨⟩, ⟨⟩⟩ := Prod.mk.inj handled.1
  have turns := (same [⟨1, id, .nil⟩] [⟨1, id, .nil⟩] (.cons ⟨rfl, rfl, fun _ _ h => h⟩ .nil)).1
  refine ⟨_, handled, ?_, rfl⟩
  generalize (takeTurns ((asking clear).computation 2) id [⟨1, id, .nil⟩] _).1 = seen at turns ⊢
  cases turns with
  | ok h => cases h with
    | cons sight rest =>
      cases rest
      rw [Sight.Matches.eq_ok sight]
      rfl

end OneShot.World
