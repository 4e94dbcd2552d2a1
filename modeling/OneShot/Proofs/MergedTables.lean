import OneShot.Proofs.Merging
import OneShot.Proofs.Snapshots

/-!
# Tables that are merged

A merge reads mappings of mappings and makes new ones. It changes no mapping that is there, and it
shares none with the tables that it has read. What is looked up in it comes from the last table that
has an entry.
-/

namespace OneShot

/-- Where the entries of a value stand that can change. -/
def Value.dictId? : Value → Option Nat
  | .dict d | .instanceOf _ _ _ _ (some d) => some d
  | _ => none

theorem Value.eq_of_same_str {q : Value} {s : String} (h : q.same (.str s) = true) :
    q = .str s := by
  cases q <;> simp_all [same]

/-- The table has this entry for an operation of an effect. -/
def Table.Has (t : Table) (effect operation : String) (entry : Value) : Prop :=
  ∃ entries, (Value.str effect, entries) ∈ t ∧ (Value.str operation, entry) ∈ entries

theorem Table.Regular.has_iff {t : Table} (h : t.Regular) {effect operation : String}
    {entry : Value} :
    t.Has effect operation entry ↔ t.answer? (.str effect) (.str operation) = some entry := by
  have spelled (s : String) (q : Value) : q.same (.str s) = true → q = .str s :=
    Value.eq_of_same_str
  rw [Table.answer?, Option.bind_eq_some_iff]
  constructor
  · rintro ⟨entries, top, inner⟩
    exact ⟨entries, h.effects.get?_of_mem top, (h.operations _ top).get?_of_mem inner⟩
  · rintro ⟨entries, top, inner⟩
    exact ⟨entries, (h.effects.mem_iff (spelled effect)).mpr top,
      ((h.of_get? top).mem_iff (spelled operation)).mpr inner⟩

namespace World

variable {L : Language} {w w' w'' : World L} {v : Value} {t : Table}

/-! ## Worlds with more mappings -/

/-- Nothing has become of the world but that it has more mappings. -/
def Adds (w w' : World L) : Prop :=
  ∃ dicts, w' = { w with dicts } ∧ w.dicts.next ≤ dicts.next ∧
    ∀ d < w.dicts.next, dicts.get? d = w.dicts.get? d

theorem Adds.refl (w : World L) : w.Adds w := ⟨w.dicts, rfl, Nat.le_refl _, fun _ _ => rfl⟩

theorem Adds.trans (h : w.Adds w') (h' : w'.Adds w'') : w.Adds w'' := by
  obtain ⟨dicts, rfl, more, old⟩ := h
  obtain ⟨dicts', rfl, more', old'⟩ := h'
  exact ⟨dicts', rfl, Nat.le_trans more more', fun d hd =>
    (old' d (Nat.lt_of_lt_of_le hd more)).trans (old d hd)⟩

theorem Adds.next_le (h : w.Adds w') : w.dicts.next ≤ w'.dicts.next := by
  obtain ⟨dicts, rfl, more, -⟩ := h
  exact more

theorem adds_addDict (entries : Assoc Value) (w : World L) : w.Adds (w.addDict entries).2 :=
  ⟨(w.dicts.add entries).2, rfl, by rw [Pool.next_add]; exact Nat.le_succ _,
    fun _ hd => Pool.get?_add_of_lt _ _ hd⟩

theorem mapping?_congr {x : Value} (same : ∀ d, x.dictId? = some d → w'.dict d = w.dict d) :
    w'.mapping? x = w.mapping? x := by
  cases x with
  | dict d => exact congrArg some (same d rfl)
  | instanceOf id cls className callable own =>
    cases own with
    | none => rfl
    | some d => exact congrArg some (same d rfl)
  | _ => rfl

theorem Adds.mapping? (h : w.Adds w') {x : Value}
    (known : ∀ d, x.dictId? = some d → d < w.dicts.next) : w'.mapping? x = w.mapping? x := by
  obtain ⟨dicts, rfl, -, old⟩ := h
  refine mapping?_congr fun d found => ?_
  simp only [World.dict, old d (known d found)]

/-! ## Tables of mappings -/

/-- The mappings of a table that can change, at both levels. -/
def dictsOf (w : World L) (v : Value) : List Nat :=
  (v :: ((w.mapping? v).getD []).map Prod.snd).filterMap Value.dictId?

/-- A value is a well-formed table: a mapping of mappings that are there, with keys that can be
looked up. -/
structure Tabled (w : World L) (v : Value) (t : Table) : Prop where
  holds : w.Holds v t
  known : ∀ d ∈ w.dictsOf v, d < w.dicts.next
  regular : t.Regular
  keys : ∀ e ∈ t, e.1.isKey = true

theorem Adds.tabled (h : w.Adds w') (tabled : w.Tabled v t) :
    w'.Tabled v t ∧ w'.dictsOf v = w.dictsOf v := by
  obtain ⟨entries, found, parts⟩ := tabled.holds
  have known : ∀ x ∈ v :: entries.map Prod.snd, ∀ d, x.dictId? = some d → d < w.dicts.next := by
    intro x mem d own
    refine tabled.known d (List.mem_filterMap.mpr ⟨x, ?_, own⟩)
    rwa [found]
  have top : w'.mapping? v = some entries :=
    (h.mapping? (known v List.mem_cons_self)).trans found
  have inner : ∀ e ∈ entries, w'.mapping? e.2 = w.mapping? e.2 := fun e mem =>
    h.mapping? (known e.2 (List.mem_cons_of_mem _ (List.mem_map_of_mem mem)))
  have same : w'.dictsOf v = w.dictsOf v := by rw [dictsOf, dictsOf, top, found]
  refine ⟨⟨⟨entries, top, ?_⟩, fun d mem => ?_, tabled.regular, tabled.keys⟩, same⟩
  · refine List.forall₂_iff_zip.mpr ⟨parts.length_eq, fun {e p} mem => ?_⟩
    obtain ⟨key, content⟩ := List.forall₂_iff_zip.mp parts |>.2 mem
    exact ⟨key, (inner e (List.of_mem_zip mem).1).trans content⟩
  · exact Nat.lt_of_lt_of_le (tabled.known d (same ▸ mem)) h.next_le

/-! ## Tables that are read -/

theorem mapM_reads {α β : Type} {f : α → Exec (World L) β} {as : List α} {bs : List β}
    (h : List.Forall₂ (fun a b => f a w = (.ok b, w)) as bs) : as.mapM f w = (.ok bs, w) := by
  induction h with
  | nil => rfl
  | cons first _ ih =>
    rw [List.mapM_cons, Exec.bind_ok first, Exec.bind_ok ih]
    rfl

section

variable {host : Host (World L)} {steps : Nat}

theorem readPart_ok {effect content : Value} {entries : Assoc Value} (key : effect.isKey = true)
    (found : w.mapping? content = some entries) :
    readPart host steps effect content w = (.ok (effect, entries), w) := by
  have looked : requireKey effect w = (.ok (), w) := by rw [requireKey, if_pos key]; rfl
  rw [readPart, Exec.bind_ok looked, Exec.bind_ok (entriesOf_mapping host steps found)]
  rfl

theorem readLive_ok {dict : Nat} {before rest : Assoc Value} {t : Table}
    (there : w.dict dict = before ++ rest) (holds : w.HoldsAll rest t)
    (keys : ∀ e ∈ t, e.1.isKey = true) :
    readLive host steps dict (before ++ rest).length (List.range' before.length rest.length) w =
      (.ok t, w) := by
  induction holds generalizing before with
  | nil => rfl
  | @cons e p rest t first holds ih =>
    obtain ⟨effect, content⟩ := e
    obtain ⟨_, entries⟩ := p
    obtain ⟨⟨⟩, found⟩ := first
    obtain ⟨key, keys⟩ := List.forall_mem_cons.mp keys
    have after : w.dict dict = (before ++ [(effect, content)]) ++ rest := by simpa using there
    have next := ih after keys
    simp only [List.append_assoc, List.singleton_append, List.length_append, List.length_cons,
      List.length_nil] at next
    have here : (w.dict dict)[before.length]? = some (effect, content) := by simp [there]
    have size : (w.dict dict).length = before.length + (rest.length + 1) := by simp [there]
    rw [List.length_cons, List.range'_succ, readLive, Exec.bind_ok (Exec.read_apply _ _), here,
      List.length_append, List.length_cons]
    refine (Exec.bind_ok (readPart_ok key found)).trans ?_
    rw [Exec.bind_ok (Exec.read_apply _ _), if_pos size]
    exact Exec.bind_ok next

theorem readLive_all (d : Nat) (holds : w.HoldsAll (w.dict d) t)
    (keys : ∀ e ∈ t, e.1.isKey = true) :
    (do
      let size ← Exec.read fun w : World L => (w.dict d).length
      readLive host steps d size (List.range size)) w = (.ok t, w) := by
  rw [Exec.bind_ok (Exec.read_apply _ _), List.range_eq_range']
  exact readLive_ok (List.nil_append (w.dict d)).symm holds keys

theorem readAny_ok (tabled : w.Tabled v t) : readAny host steps v w = (.ok t, w) := by
  obtain ⟨entries, found, parts⟩ := tabled.holds
  cases v with
  | dict d =>
    obtain rfl := Option.some.inj found
    exact readLive_all d parts tabled.keys
  | instanceOf id cls className callable own =>
    cases own with
    | none => cases found
    | some d =>
      obtain rfl := Option.some.inj found
      exact readLive_all d parts tabled.keys
  | frozen id own =>
    obtain rfl := Option.some.inj found
    refine mapM_reads ?_
    have keys := tabled.keys
    clear tabled found
    induction parts with
    | nil => exact .nil
    | @cons e p _ _ first _ ih =>
      obtain ⟨effect, content⟩ := e
      obtain ⟨_, entries⟩ := p
      obtain ⟨⟨⟩, found⟩ := first
      obtain ⟨key, keys⟩ := List.forall_mem_cons.mp keys
      exact .cons (readPart_ok key found) (ih keys)
  | _ => cases found

theorem readAll_ok {tables : List (Value × Table)} (given : ∀ p ∈ tables, w.Tabled p.1 p.2) :
    (tables.map Prod.fst).mapM (readAny host steps) w = (.ok (tables.map Prod.snd), w) := by
  refine mapM_reads (List.forall₂_map_left_iff.mpr (List.forall₂_map_right_iff.mpr ?_))
  exact List.forall₂_same.mpr fun p mem => readAny_ok (given p mem)

end

/-! ## Tables that are made -/

theorem writeParts_new (t : Table) (w : World L) :
    ∃ parts w', writeParts t w = (.ok parts, w') ∧ w.Adds w' ∧
      parts.map Prod.snd = (List.range' w.dicts.next t.length).map .dict ∧
      w'.dicts.next = w.dicts.next + t.length := by
  induction t generalizing w with
  | nil => exact ⟨[], w, rfl, .refl w, rfl, rfl⟩
  | cons part t ih =>
    obtain ⟨effect, entries⟩ := part
    have next : (w.addDict entries).2.dicts.next = w.dicts.next + 1 := Pool.next_add _ _
    obtain ⟨parts, w', run, more, ids, last⟩ := ih (w.addDict entries).2
    have added : Exec.alter (addDict entries) w =
        (.ok (.dict w.dicts.next), (w.addDict entries).2) := rfl
    refine ⟨(effect, .dict w.dicts.next) :: parts, w', ?_, (adds_addDict entries w).trans more,
      ?_, ?_⟩
    · rw [writeParts_cons, Exec.bind_ok added, Exec.bind_ok run]
      rfl
    · rw [List.map_cons, ids, next]
      rfl
    · rw [last, next, List.length_cons]
      omega

/-- The mappings of a table that is made are new, and each is there once. -/
theorem writeTable_new (t : Table) (w : World L) :
    ∃ v w', writeTable t w = (.ok v, w') ∧ w.Adds w' ∧ w'.Holds v t ∧
      w'.dictsOf v = (w.dicts.next + t.length) :: List.range' w.dicts.next t.length ∧
      w'.dicts.next = w.dicts.next + t.length + 1 := by
  obtain ⟨parts, w', run, more, ids, last⟩ := writeParts_new t w
  obtain ⟨_, _, made, holds⟩ := writeTable_holds t w
  obtain ⟨⟨⟩, ⟨⟩⟩ := Prod.mk.inj (made.symm.trans (Exec.bind_ok run))
  have written : (w'.addDict parts).2.mapping? (.dict w'.dicts.next) = some parts :=
    congrArg some (dict_addDict parts w').1
  refine ⟨.dict w'.dicts.next, (w'.addDict parts).2, Exec.bind_ok run,
    more.trans (adds_addDict parts w'), holds _ fun _ _ => rfl, ?_, ?_⟩
  · rw [dictsOf, written, Option.getD_some, ids, last]
    simp [List.filterMap_map, Function.comp_def, Value.dictId?]
  · rw [← last]
    exact Pool.next_add _ _

theorem all_regular {tables : List (Value × Table)} (given : ∀ p ∈ tables, w.Tabled p.1 p.2) :
    ∀ t ∈ tables.map Prod.snd, t.Regular := by
  intro t mem
  obtain ⟨p, listed, rfl⟩ := List.mem_map.mp mem
  exact (given p listed).regular

theorem merge_new (host : Host (World L)) (steps : Nat) {tables : List (Value × Table)}
    (given : ∀ p ∈ tables, w.Tabled p.1 p.2) :
    ∃ v w', merge host steps (tables.map Prod.fst) w = (.ok v, w') ∧ w.Adds w' ∧
      w'.Tabled v (Table.merge (tables.map Prod.snd)) ∧
      (w'.dictsOf v).Nodup ∧ ∀ d ∈ w'.dictsOf v, w.dicts.next ≤ d := by
  obtain ⟨v, w', run, more, holds, ids, last⟩ :=
    writeTable_new (Table.merge (tables.map Prod.snd)) w
  have all := all_regular given
  refine ⟨v, w', ?_, more, ⟨holds, ?_, Table.Regular.merge all, ?_⟩, ?_, ?_⟩
  · rw [merge, Exec.bind_ok (readAll_ok given)]
    exact run
  · intro d mem
    rw [ids, List.mem_cons, List.mem_range'_1] at mem
    omega
  · intro e mem
    have key : e.1 ∈ Assoc.keys (Table.merge (tables.map Prod.snd)) := List.mem_map_of_mem mem
    rw [Table.keys_merge all] at key
    obtain ⟨t, listed, key⟩ := List.mem_flatMap.mp (Assoc.mem_firsts key)
    obtain ⟨p, mem, rfl⟩ := List.mem_map.mp listed
    obtain ⟨f, there, same⟩ := List.mem_map.mp key
    exact same ▸ (given p mem).keys f there
  · rw [ids, List.nodup_cons, List.mem_range'_1]
    exact ⟨by omega, List.nodup_range'⟩
  · intro d mem
    rw [ids, List.mem_cons, List.mem_range'_1] at mem
    omega

/-! ## Lookups in frozen tables -/

/-- What a lookup of an action in the frozen table tells: whether there is an entry, and which. -/
def LooksUp (host : Host (World L)) (bound : Nat) (w : World L) (v action : Value) (found : Bool)
    (entry : Value) : Prop :=
  ∃ frozen w₁ id w₂, freeze v w = (.ok frozen, w₁) ∧
    lookup host bound frozen action w₁ = (.ok (.tuple id [.bool found, entry]), w₂)

/-- The entries of a table as mappings that nobody can change. -/
def FrozenAll (parts : Assoc Value) (t : Table) : Prop :=
  Assoc.Over (fun content entries => ∃ id, content = .frozen id entries) parts t

theorem freezeEntries_ok {entries : Assoc Value} (found : w.mapping? v = some entries) :
    ∃ id n, freezeEntries v w = (.ok (.frozen id entries), { w with nextId := n }) := by
  cases v with
  | dict d =>
    obtain rfl := Option.some.inj found
    exact ⟨w.nextId, w.nextId + 1, rfl⟩
  | frozen id own =>
    obtain rfl := Option.some.inj found
    exact ⟨id, w.nextId, rfl⟩
  | instanceOf id cls className callable own =>
    cases own with
    | none => cases found
    | some d =>
      obtain rfl := Option.some.inj found
      exact ⟨w.nextId, w.nextId + 1, rfl⟩
  | _ => cases found

theorem freezeParts_ok {entries : Assoc Value} (holds : w.HoldsAll entries t) {u : World L}
    (same : u.dicts = w.dicts) :
    ∃ parts u', (entries.mapM fun (effect, v) => do return (effect, ← freezeEntries v) :
      Exec (World L) (Assoc Value)) u = (.ok parts, u') ∧ FrozenAll parts t := by
  induction holds generalizing u with
  | nil => exact ⟨[], u, rfl, .nil⟩
  | @cons e p entries t first holds ih =>
    obtain ⟨effect, content⟩ := e
    obtain ⟨key, found⟩ := first
    have found : u.mapping? content = some p.2 := by
      rw [← found]
      exact mapping?_congr fun d _ => by simp only [World.dict, same]
    obtain ⟨id, n, run⟩ := freezeEntries_ok found
    obtain ⟨parts, u', rest, frozen⟩ := ih (u := { u with nextId := n }) same
    refine ⟨(effect, .frozen id p.2) :: parts, u', ?_, .cons ⟨key, id, rfl⟩ frozen⟩
    have first : (do return (effect, ← freezeEntries content) : Exec (World L) (Value × Value)) u =
        (.ok (effect, .frozen id p.2), { u with nextId := n }) := Exec.bind_ok run
    rw [List.mapM_cons, Exec.bind_ok first, Exec.bind_ok rest]
    rfl

theorem freeze_ok (holds : w.Holds v t) :
    ∃ id parts w', freeze v w = (.ok (.frozen id parts), w') ∧ FrozenAll parts t := by
  obtain ⟨entries, found, inner⟩ := holds
  obtain ⟨parts, w', run, frozen⟩ := freezeParts_ok inner rfl
  have looked : Exec.read (fun w => (w.mapping? v).getD []) w = (.ok entries, w) := by
    rw [← Option.getD_some (a := entries), ← found]
    rfl
  refine ⟨w'.nextId, parts, (w'.takeIds 1).2, ?_, frozen⟩
  rw [freeze, Exec.bind_ok (readTable_holds ⟨entries, found, inner⟩), Exec.bind_ok looked,
    Exec.bind_ok run]
  rfl

theorem absent_eq (w : World L) :
    ∃ id w', lookup.absent w = (.ok (.tuple id [.bool false, .nil]), w') := ⟨_, _, rfl⟩

theorem requireKey_str (s : String) (w : World L) : requireKey (.str s) w = (.ok (), w) := rfl

theorem item_frozen {id : Nat} {entries : Assoc Value} {s : String} {entry : Value}
    (found : entries.get? (.str s) = some entry) (w : World L) :
    item (.frozen id entries) (.str s) w = (.ok entry, w) := by
  refine (Exec.bind_ok (Exec.read_apply _ _)).trans ?_
  refine (Exec.bind_ok (requireKey_str s w)).trans ?_
  rw [found]
  rfl

theorem lookup_frozen {host : Host (World L)} {bound id own tuple : Nat} {parts : Assoc Value}
    (frozen : FrozenAll parts t) (effect operation : String) (parameters : List Value)
    (w : World L) :
    ∃ found w', lookup host bound (.frozen id parts)
        (.action own (.str effect) (.str operation) tuple parameters) w =
      (.ok (.tuple found [.bool (t.answer? (.str effect) (.str operation)).isSome,
        (t.answer? (.str effect) (.str operation)).getD .nil]), w') := by
  have top : entriesFor host (.frozen id parts) (.str effect) w =
      (.ok ((parts.get? (.str effect)).getD .nil), w) := rfl
  rw [lookup, Exec.bind_ok top, Table.answer?]
  obtain ⟨none, none'⟩ | ⟨_, entries, some, some', inner, rfl⟩ := frozen.get? (.str effect)
  · rw [none, none']
    exact ⟨_, _, rfl⟩
  · rw [some, some']
    have asked : contains host bound (.str operation) (.frozen inner entries) w =
        (.ok (Assoc.contains entries (.str operation)), w) := rfl
    refine ⟨w.nextId, (w.takeIds 1).2, (Exec.bind_ok asked).trans ?_⟩
    rw [Assoc.contains, Option.bind_some]
    cases found : Assoc.get? entries (.str operation) with
    | none => rfl
    | some entry =>
      exact Exec.bind_ok (item_frozen found w)

section

variable {host : Host (World L)} {bound own tuple : Nat} {effect operation : String}
  {parameters : List Value} (holds : w.Holds v t)

include holds

theorem looksUp_entry {entry : Value}
    (found : t.answer? (.str effect) (.str operation) = some entry) :
    LooksUp host bound w v (.action own (.str effect) (.str operation) tuple parameters) true
      entry := by
  obtain ⟨id, parts, w₁, run, frozen⟩ := freeze_ok holds
  obtain ⟨result, w₂, looked⟩ := lookup_frozen frozen effect operation parameters w₁
  rw [found] at looked
  exact ⟨_, w₁, result, w₂, run, looked⟩

theorem looksUp_none (none : t.answer? (.str effect) (.str operation) = none) :
    LooksUp host bound w v (.action own (.str effect) (.str operation) tuple parameters) false
      .nil := by
  obtain ⟨id, parts, w₁, run, frozen⟩ := freeze_ok holds
  obtain ⟨result, w₂, looked⟩ := lookup_frozen frozen effect operation parameters w₁
  rw [none] at looked
  exact ⟨_, w₁, result, w₂, run, looked⟩

theorem looksUp_other {x : Value} (other : x.isAction = false) :
    LooksUp host bound w v x false .nil := by
  obtain ⟨id, parts, w₁, run, -⟩ := freeze_ok holds
  obtain ⟨found, w₂, absent⟩ := absent_eq w₁
  refine ⟨_, w₁, found, w₂, run, ?_⟩
  cases x with
  | action => cases other
  | _ => exact absent

end

/-! ## The laws of merging -/

/-- The last of the tables that has an entry for an action decides what is looked up. If there is
none, nothing is found. -/
def LastDecides (host : Host (World L)) (bound : Nat) (w : World L) (tables : List (Value × Table))
    (v : Value) : Prop :=
  ∀ own effect operation tuple parameters,
    let action := Value.action own (.str effect) (.str operation) tuple parameters
    (∀ before p after entry, tables = before ++ p :: after → p.2.Has effect operation entry →
      (∀ q ∈ after, ∀ x, ¬q.2.Has effect operation x) →
      LooksUp host bound w v action true entry ∧ LooksUp host bound w p.1 action true entry) ∧
    ((∀ p ∈ tables, ∀ x, ¬p.2.Has effect operation x) → LooksUp host bound w v action false .nil)

/-- The merge of these tables holds that table. -/
def Gives (host : Host (World L)) (steps : Nat) (w : World L) (tables : List Value) (t : Table) :
    Prop :=
  ∃ v w', merge host steps tables w = (.ok v, w') ∧ w'.Holds v t

theorem gives_merge {host : Host (World L)} {steps : Nat} {tables : List (Value × Table)}
    (given : ∀ p ∈ tables, w.Tabled p.1 p.2) :
    Gives host steps w (tables.map Prod.fst) (Table.merge (tables.map Prod.snd)) := by
  obtain ⟨v, w', run, -, tabled, -⟩ := merge_new host steps given
  exact ⟨v, w', run, tabled.holds⟩

theorem gives_two {host : Host (World L)} {steps : Nat} {x y : Value} {t u : Table}
    (hx : w.Tabled x t) (hy : w.Tabled y u) : Gives host steps w [x, y] (Table.merge [t, u]) := by
  have given : ∀ p ∈ [(x, t), (y, u)], w.Tabled p.1 p.2 := by
    simp only [List.forall_mem_cons, List.not_mem_nil, false_implies, implies_true, and_true]
    exact ⟨hx, hy⟩
  exact gives_merge given

theorem last_decides {host : Host (World L)} {bound : Nat} {tables : List (Value × Table)}
    (given : ∀ p ∈ tables, w.Tabled p.1 p.2)
    (holds : w.Holds v (Table.merge (tables.map Prod.snd))) :
    LastDecides host bound w tables v := by
  have regular := all_regular given
  have lacks {effect operation : String} {p : Value × Table} (mem : p ∈ tables)
      (none : ∀ x, ¬p.2.Has effect operation x) :
      p.2.answer? (.str effect) (.str operation) = .none :=
    Option.eq_none_iff_forall_ne_some.mpr fun x found =>
      none x ((given p mem).regular.has_iff.mpr found)
  intro own effect operation tuple parameters
  constructor
  · rintro before p after entry rfl has none
    have here := (given p (by simp)).regular.has_iff.mp has
    refine ⟨looksUp_entry holds ?_, looksUp_entry (given p (by simp)).holds here⟩
    have nothing : after.reverse.findSome? (fun q => q.2.answer? (.str effect) (.str operation)) =
        .none := by
      rw [List.findSome?_eq_none_iff]
      exact fun q mem => lacks (by simp_all) (none q (List.mem_reverse.mp mem))
    rw [Table.answer?_merge regular, ← List.map_reverse, List.findSome?_map, List.reverse_append,
      List.reverse_cons, List.append_assoc, List.findSome?_append]
    simp only [Function.comp_def, nothing, List.singleton_append, List.findSome?_cons, here,
      Option.none_or]
  · intro none
    refine looksUp_none holds ?_
    rw [Table.answer?_merge regular, ← List.map_reverse, List.findSome?_map,
      List.findSome?_eq_none_iff]
    exact fun p mem => lacks (List.mem_reverse.mp mem) (none p (List.mem_reverse.mp mem))

/-- Merging makes new mappings and changes none that is there. The last table that has an entry for
an action decides what is looked up, effects and operations stay in the order in which they first
come up, and tables can be merged in groups, with empty tables, and with themselves. -/
theorem tables_merge (host : Host (World L)) (steps bound : Nat) {tables : List (Value × Table)}
    (given : ∀ p ∈ tables, w.Tabled p.1 p.2) :
    ∃ v w' t, merge host steps (tables.map Prod.fst) w = (.ok v, w') ∧ w'.Tabled v t ∧
      LastDecides host bound w' tables v ∧
      (∀ x, x.isAction = false → LooksUp host bound w' v x false .nil) ∧
      (Assoc.keys t = Assoc.firsts (tables.flatMap (Assoc.keys ·.2)) ∧
        ∀ effect, t.operations effect = Assoc.firsts (tables.flatMap (·.2.operations effect))) ∧
      (∀ first rest, tables = first ++ rest → ∃ v₁ w₁ v₂ w₂,
        merge host steps (first.map Prod.fst) w = (.ok v₁, w₁) ∧
          merge host steps (rest.map Prod.fst) w₁ = (.ok v₂, w₂) ∧
          Gives host steps w₂ [v₁, v₂] t) ∧
      (∀ p ∈ tables, Gives host steps w [p.1, p.1] p.2 ∧
        ∀ empty, w.Tabled empty [] →
          Gives host steps w [empty, p.1] p.2 ∧ Gives host steps w [p.1, empty] p.2) ∧
      w.Adds w' ∧ (w'.dictsOf v).Nodup ∧
      ∀ p ∈ tables, w'.Tabled p.1 p.2 ∧ (w'.dictsOf v).Disjoint (w'.dictsOf p.1) := by
  obtain ⟨v, w', run, more, tabled, once, fresh⟩ := merge_new host steps given
  have regular := all_regular given
  have given' : ∀ p ∈ tables, w'.Tabled p.1 p.2 := fun p mem => (more.tabled (given p mem)).1
  refine ⟨v, w', _, run, tabled, last_decides given' tabled.holds,
    fun x other => looksUp_other tabled.holds other, ⟨?effects, ?operations⟩, ?groups, ?units, more,
    once, ?apart⟩
  case effects => rw [Table.keys_merge regular, List.flatMap_map]
  case operations =>
    intro effect
    rw [Table.operations_merge regular, List.flatMap_map]
  case groups =>
    rintro first rest rfl
    obtain ⟨given₁, given₂⟩ := List.forall_mem_append.mp given
    rw [List.map_append] at regular
    obtain ⟨regular₁, regular₂⟩ := List.forall_mem_append.mp regular
    obtain ⟨v₁, w₁, run₁, more₁, tabled₁, -⟩ := merge_new host steps given₁
    obtain ⟨v₂, w₂, run₂, more₂, tabled₂, -⟩ :=
      merge_new host steps fun p mem => (more₁.tabled (given₂ p mem)).1
    refine ⟨v₁, w₁, v₂, w₂, run₁, run₂, ?_⟩
    -- In groups, the two merged tables are merged like the first one over the second one.
    rw [List.map_append, ← Table.merge_merge regular₁ regular₂]
    exact gives_two (more₂.tabled tabled₁).1 tabled₂
  case units =>
    intro p mem
    have here := given p mem
    have two {x y : Value} {t u : Table} (hx : w.Tabled x t) (hy : w.Tabled y u) :
        Gives host steps w [x, y] (t.overlay u) :=
      Table.merge_two hx.regular u ▸ gives_two hx hy
    refine ⟨Table.overlay_self here.regular ▸ two here here, fun empty nothing => ⟨?_, ?_⟩⟩
    · exact Table.nil_overlay here.regular ▸ two nothing here
    · exact two here nothing
  case apart =>
    intro p mem
    obtain ⟨kept, same⟩ := more.tabled (given p mem)
    refine ⟨kept, fun d new old => ?_⟩
    exact absurd ((given p mem).known d (same ▸ old)) (Nat.not_lt.mpr (fresh d new))

/-! Two tables with an operation in common. The second one has nothing as its entry. -/

def menus : World ⟨Unit, Unit, Unit⟩ :=
  { memory := ()
    dicts := ⟨#[[(.str "get", .int 1), (.str "put", .int 2)], [(.str "a", .dict 0)],
      [(.str "get", .nil)], [(.str "a", .dict 2)]]⟩ }

def menu : Table := [(.str "a", [(.str "get", .int 1), (.str "put", .int 2)])]

theorem tabled_menu : menus.Tabled (.dict 1) menu where
  holds := ⟨_, rfl, .cons ⟨rfl, rfl⟩ .nil⟩
  known := by decide
  regular := by
    refine ⟨⟨by simp [menu, Value.exact_str], by simp [menu]⟩, fun e mem => ?_⟩
    obtain rfl : e = (.str "a", [(.str "get", .int 1), (.str "put", .int 2)]) := by
      simpa [menu] using mem
    exact ⟨by simp [Value.exact_str], by simp [Value.same]⟩
  keys := by simp [menu, Value.isKey, Value.changeable?]

theorem tabled_one : menus.Tabled (.dict 3) (Table.one "a" "get" .nil) where
  holds := ⟨_, rfl, .cons ⟨rfl, rfl⟩ .nil⟩
  known := by decide
  regular := Table.regular_one "a" "get" .nil
  keys := by simp [Table.one, Value.isKey, Value.changeable?]

theorem tables_merge_menus :
    let host := World.host (L := ⟨Unit, Unit, Unit⟩) (fun _ _ => Exec.exhausted) fun _ _ =>
      Exec.exhausted
    let action (operation : String) := Value.action 7 (.str "a") (.str operation) 8 []
    ∃ v w, merge host 0 [.dict 1, .dict 3] menus = (.ok v, w) ∧
      LooksUp host 0 w v (action "get") true .nil ∧
      LooksUp host 0 w v (action "put") true (.int 2) ∧
      LooksUp host 0 w v (action "ask") false .nil ∧ w.Tabled (.dict 1) menu := by
  intro host action
  have given : ∀ p ∈ [(Value.dict 1, menu), (Value.dict 3, Table.one "a" "get" .nil)],
      menus.Tabled p.1 p.2 := by
    simp only [List.forall_mem_cons, List.not_mem_nil, false_implies, implies_true, and_true]
    exact ⟨tabled_menu, tabled_one⟩
  obtain ⟨v, w, t, run, -, last, -, -, -, -, -, -, kept⟩ := tables_merge host 0 0 given
  refine ⟨v, w, run, ?_, ?_, ?_, (kept (.dict 1, menu) List.mem_cons_self).1⟩
  · exact ((last 7 "a" "get" 8 []).1 [(.dict 1, menu)] _ [] .nil rfl
      ⟨_, List.mem_cons_self, List.mem_cons_self⟩ (by simp)).1
  · exact ((last 7 "a" "put" 8 []).1 [] (.dict 1, menu) _ (.int 2) rfl
      ⟨_, List.mem_cons_self, by simp⟩ (by simp [Table.Has, Table.one])).1
  · exact (last 7 "a" "ask" 8 []).2 (by simp [Table.Has, menu, Table.one])

end World

end OneShot
