import OneShot.Kernel
import OneShot.Proofs.Namespaces

/-!
# Visits to effects

A program asks effects for their operations, one time after the other. An effect changes only when
it is asked itself, and an operation that has been found once has the same creator ever after.
-/

namespace OneShot

theorem Pool.set_self {α : Type} {p : Pool α} {id : Nat} {a : α} (h : p.get? id = some a) :
    p.set id a = p := by
  obtain ⟨known, rfl⟩ := Array.getElem?_eq_some_iff.mp h
  simp [Pool.set, Array.setIfInBounds, known]

namespace World

variable {L : Language}

/-! ## Queries -/

/-- What a program can ask of an effect. Any value can stand for an operation. -/
inductive Query where
  | access (name : String)
  | item (operation : Value)
  | member (operation : Value)
  | derive (name : String)

namespace Query

def ask (host : Host (World L)) (bound e : Nat) : Query → Exec (World L) Value
  | access name => World.access (.effect e) name
  | item operation => World.item (.effect e) operation
  | member operation => do return .bool (← contains host bound operation (.effect e))
  | derive name => World.derive (.str name) (.effect e)

/-- The operation that is looked up, if one is. A hidden name and a name that an effect answers
itself look nothing up. -/
def seeks : Query → Option Value
  | access name =>
    if name.startsWith "_" || Namespace.ownNames.contains name then none else some (.str name)
  | item operation => some operation
  | member _ | derive _ => none

theorem seeks_shown {name : String} (shown : name.startsWith "_" = false)
    (other : name ∉ Namespace.ownNames) : (access name).seeks = some (.str name) := by
  have own : Namespace.ownNames.contains name = false := by simpa using other
  rw [seeks, shown, own]
  rfl

end Query

/-- How an effect answers, and what becomes of the effects. -/
inductive Asked (w : World L) (e : Nat) (n : Namespace) :
    Query → Result Value → World L → Prop where
  | found {q o c m w'} (seeks : Query.seeks q = some o) (found : n.item w.nextId o = .ok (c, m))
      (now : w'.effects = w.effects.set e m) : Asked w e n q (.ok c) w'
  | missing {q o cause error w'} (seeks : Query.seeks q = some o)
      (missing : n.item w.nextId o = .error cause) (kept : w'.effects = w.effects) :
      Asked w e n q (.raised error) w'
  | hidden {name error w'} (hidden : name.startsWith "_" = true) (kept : w'.effects = w.effects) :
      Asked w e n (.access name) (.raised error) w'
  | own {name v w'} (own : name ∈ Namespace.ownNames) (kept : w'.effects = w.effects) :
      Asked w e n (.access name) (.ok v) w'
  | member {o r w'} (kept : w'.effects = w.effects) : Asked w e n (.member o) r w'
  | derived {name d w'} (derived : n.derive (.str name) w.nextId = .ok d)
      (now : w'.effects = (w.effects.add d).2) :
      Asked w e n (.derive name) (.ok (.effect w.effects.next)) w'
  | underived {name cause error w'} (fails : n.derive (.str name) w.nextId = .error cause)
      (kept : w'.effects = w.effects) : Asked w e n (.derive name) (.raised error) w'

section

variable {w : World L} {e : Nat} {n : Namespace}

theorem creatorFrom_ok {ask : Namespace → Nat → Except (Cause Value) (Value × Namespace)}
    {c : Value} {m : Namespace} (known : w.effects.get? e = some n)
    (found : ask n w.nextId = .ok (c, m)) :
    creatorFrom e ask w = (.ok c, setEffect e m (w.takeIds 1).2) := by
  rw [creatorFrom, Exec.bind_ok (show Exec.read _ w = _ from rfl)]
  simp only [known]
  rw [Exec.bind_ok (show Exec.alter _ w = _ from rfl)]
  simp only [takeIds, found]
  rfl

theorem creatorFrom_fails {ask : Namespace → Nat → Except (Cause Value) (Value × Namespace)}
    {cause : Cause Value} (known : w.effects.get? e = some n)
    (missing : ask n w.nextId = .error cause) :
    creatorFrom e ask w = fail cause (w.takeIds 1).2 := by
  rw [creatorFrom, Exec.bind_ok (show Exec.read _ w = _ from rfl)]
  simp only [known]
  rw [Exec.bind_ok (show Exec.alter _ w = _ from rfl)]
  simp only [takeIds, missing]
  rfl

theorem asked_creatorFrom {ask : Namespace → Nat → Except (Cause Value) (Value × Namespace)}
    {q : Query} {o : Value} (known : w.effects.get? e = some n) (seeks : q.seeks = some o)
    (finds : ∀ found, ask n w.nextId = .ok found ↔ n.item w.nextId o = .ok found) :
    Asked w e n q (creatorFrom e ask w).1 (creatorFrom e ask w).2 := by
  cases result : ask n w.nextId with
  | ok found =>
    obtain ⟨c, m⟩ := found
    rw [creatorFrom_ok known result]
    exact .found seeks ((finds _).mp result) rfl
  | error cause =>
    rw [creatorFrom_fails known result]
    cases item : n.item w.nextId o with
    | ok found => cases result.symm.trans ((finds found).mpr item)
    | error => exact .missing seeks item rfl

theorem makeEffect_ok {build : Nat → Except (Cause Value) Namespace}
    (made : build w.nextId = .ok n) :
    ∃ w', makeEffect build w = (.ok (.effect w.effects.next), w') ∧
      w'.effects = (w.effects.add n).2 := by
  refine ⟨((w.takeIds n.creators.length).2.addEffect n).2, ?_, rfl⟩
  rw [makeEffect, Exec.bind_ok (show Exec.read _ w = _ from rfl), made]
  rfl

theorem makeEffect_fails {build : Nat → Except (Cause Value) Namespace} {cause : Cause Value}
    (fails : build w.nextId = .error cause) : makeEffect build w = fail cause w := by
  rw [makeEffect, Exec.bind_ok (show Exec.read _ w = _ from rfl), fails]
  rfl

theorem deriveFrom_known (known : w.effects.get? e = some n) (name : Value) :
    deriveFrom e name w = makeEffect (n.derive name) w := by
  rw [deriveFrom, Exec.bind_ok (show Exec.read _ w = _ from rfl)]
  simp only [known]

theorem contains_effect (host : Host (World L)) (bound : Nat) (known : w.effects.get? e = some n)
    {o : Value} (key : o.isKey = true) :
    contains host bound o (.effect e) w = (.ok (n.contains o), w) := by
  simp only [contains, requireKey, key, if_true]
  rw [Exec.bind_ok (Exec.pure_apply () w)]
  simp [Exec.read, known]

theorem member_refused (host : Host (World L)) (bound e : Nat) {o : Value} (key : ¬o.isKey = true)
    (w : World L) : (Query.member o).ask host bound e w = fail (.refused o.keyRefusal) w := by
  simp only [Query.ask, contains, requireKey, if_neg key]
  rfl

theorem asked_attribute (known : w.effects.get? e = some n) (name : String) :
    Asked w e n (.access name) (effectAttribute e name w).1 (effectAttribute e name w).2 := by
  have read : effectAttribute e name w = _ := Exec.bind_ok (show Exec.read _ w = _ from rfl)
  rw [read]
  simp only [known]
  split
  case h_5 _ none_name none_operations none_open none_derive =>
    cases shown : name.startsWith "_" with
    | false =>
      have other : name ∉ Namespace.ownNames := by
        simp only [Namespace.ownNames, List.mem_cons, List.not_mem_nil, or_false, not_or]
        exact ⟨none_derive, none_name, none_open, none_operations⟩
      exact asked_creatorFrom known (Query.seeks_shown shown other)
        fun _ => Namespace.named_eq_ok.trans (and_iff_right shown)
    | true =>
      have refused : n.named w.nextId name = .error (.hiddenName name) := by
        simp [Namespace.named, shown]
      have run : creatorFrom e (·.named · name) w = fail (.hiddenName name) (w.takeIds 1).2 :=
        creatorFrom_fails known refused
      rw [run]
      exact .hidden shown rfl
  all_goals exact .own (by simp [Namespace.ownNames]) rfl

/-- One query: what the effect answers, and what it adds. -/
theorem asked (host : Host (World L)) (bound : Nat) (known : w.effects.get? e = some n)
    (q : Query) : Asked w e n q (q.ask host bound e w).1 (q.ask host bound e w).2 := by
  cases q with
  | access name => exact asked_attribute known name
  | item o => exact asked_creatorFrom (q := .item o) known rfl fun _ => Iff.rfl
  | member o =>
    by_cases key : o.isKey = true
    · have run : (Query.member o).ask host bound e w = (.ok (.bool (n.contains o)), w) :=
        Exec.bind_ok (contains_effect host bound known key)
      rw [run]
      exact .member rfl
    · rw [member_refused host bound e key]
      exact .member rfl
  | derive name =>
    have run : (Query.derive name).ask host bound e w = makeEffect (n.derive (.str name)) w :=
      deriveFrom_known known _
    rw [run]
    cases made : n.derive (.str name) w.nextId with
    | ok d =>
      obtain ⟨w', run, now⟩ := makeEffect_ok made
      rw [run]
      exact .derived made now
    | error cause =>
      rw [makeEffect_fails made]
      exact .underived made rfl

theorem Asked.looks_up {q : Query} {r : Result Value} {w' : World L} {o : Value}
    (asked : Asked w e n q r w') (seeks : q.seeks = some o) :
    (∃ c m, r = .ok c ∧ n.item w.nextId o = .ok (c, m) ∧ w'.effects = w.effects.set e m) ∨
      ∃ error cause, r = .raised error ∧ n.item w.nextId o = .error cause ∧
        w'.effects = w.effects := by
  cases asked with
  | found seeks' found now =>
    obtain rfl := Option.some.inj (seeks.symm.trans seeks')
    exact Or.inl ⟨_, _, rfl, found, now⟩
  | missing seeks' missing kept =>
    obtain rfl := Option.some.inj (seeks.symm.trans seeks')
    exact Or.inr ⟨_, _, rfl, missing, kept⟩
  | hidden hidden => simp [Query.seeks, hidden] at seeks
  | own own => simp [Query.seeks, own] at seeks
  | member | derived | underived => cases seeks

/-- An effect is changed by no query to another one, and grows by its own. -/
theorem Asked.keeps {e' : Nat} {n' : Namespace} {q : Query} {r : Result Value} {w' : World L}
    (asked : Asked w e n q r w') (known : w.effects.get? e = some n)
    (other : w.effects.get? e' = some n') :
    ∃ m, w'.effects.get? e' = some m ∧ n'.Grows m ∧ (n'.Arises → m.Arises) ∧ (e' ≠ e → m = n') := by
  have same (kept : w'.effects = w.effects) :
      ∃ m, w'.effects.get? e' = some m ∧ n'.Grows m ∧ (n'.Arises → m.Arises) ∧
        (e' ≠ e → m = n') :=
    ⟨n', by rw [kept, other], .refl n', id, fun _ => rfl⟩
  cases asked with
  | @found _ o c m _ seeks found now =>
    by_cases here : e' = e
    · subst here
      obtain rfl : n' = n := Option.some.inj (other.symm.trans known)
      refine ⟨m, ?_, Namespace.grows_of_item found, (.asked · found), (absurd rfl ·)⟩
      rw [now, Pool.get?_set_self known]
    · refine ⟨n', ?_, .refl n', id, fun _ => rfl⟩
      rw [now, Pool.get?_set_of_ne _ _ (Ne.symm here), other]
  | derived _ now =>
    refine ⟨n', ?_, .refl n', id, fun _ => rfl⟩
    rw [now, Pool.get?_add_of_lt _ _ (Pool.lt_next other), other]
  | missing _ _ kept | hidden _ kept | own _ kept | member kept | underived _ kept =>
    exact same kept

end

/-! ## Making effects -/

theorem makeEffect_gives {build : Nat → Except (Cause Value) Namespace} {P : Namespace → Prop}
    {v : Value} {w w' : World L} (gives : ∀ n, build w.nextId = .ok n → P n)
    (run : makeEffect build w = (.ok v, w')) :
    ∃ e n, v = .effect e ∧ w'.effects.get? e = some n ∧ P n := by
  cases built : build w.nextId with
  | ok n =>
    obtain ⟨w₁, made, now⟩ := makeEffect_ok built
    obtain ⟨answer, rfl⟩ := Prod.mk.inj (made.symm.trans run)
    exact ⟨_, n, (Result.ok.inj answer).symm, by rw [now, Pool.get?_next], gives n built⟩
  | error cause => cases (makeEffect_fails built).symm.trans run

/-- An effect that comes from a name or from a specification has arisen. -/
theorem createEffect_arises {source : Value} {operations : List Value} {v : Value}
    {w w' : World L} (run : createEffect source operations w = (.ok v, w')) :
    ∃ e n, v = .effect e ∧ w'.effects.get? e = some n ∧ n.Arises := by
  have arises {name : Value} {operations : List Value} {next : Nat} (n : Namespace)
      (created : Namespace.create name next operations = .ok n) : n.Arises :=
    Namespace.arises_of_create created
  unfold createEffect at run
  split at run
  · exact makeEffect_gives arises run
  · obtain ⟨found, w₁, -, run⟩ := Exec.bind_eq_ok.mp run
    split at run
    · split at run
      · obtain ⟨declared, w₂, -, run⟩ := Exec.bind_eq_ok.mp run
        obtain ⟨name, w₃, -, run⟩ := Exec.bind_eq_ok.mp run
        exact makeEffect_gives arises run
      · cases run
    · cases run
  · cases run

/-! ## Histories -/

/-- The worlds that visits lead to. Between the visits anything can happen that leaves the effects
as they are. It can make further ones. -/
inductive Visits (host : Host (World L)) (bound : Nat) (w₀ : World L) : World L → Prop where
  | start : Visits host bound w₀ w₀
  | visit {w : World L} {e : Nat} {n : Namespace} (before : Visits host bound w₀ w)
      (known : w.effects.get? e = some n) (q : Query) :
      Visits host bound w₀ (q.ask host bound e w).2
  | elsewhere {w w' : World L} (before : Visits host bound w₀ w)
      (kept : ∀ e n, w.effects.get? e = some n → w'.effects.get? e = some n) :
      Visits host bound w₀ w'

section

variable {host : Host (World L)} {bound e : Nat} {n : Namespace} {w w' : World L}

theorem Visits.keeps (visits : Visits host bound w w') (known : w.effects.get? e = some n) :
    ∃ m, w'.effects.get? e = some m ∧ n.Grows m ∧ (n.Arises → m.Arises) := by
  induction visits with
  | start => exact ⟨n, known, .refl n, id⟩
  | @visit w₁ e₁ n₁ _ known₁ q ih =>
    obtain ⟨m, there, grows, arises⟩ := ih
    obtain ⟨k, there, grows', arises', -⟩ := (asked host bound known₁ q).keeps known₁ there
    exact ⟨k, there, grows.trans grows', arises' ∘ arises⟩
  | elsewhere _ kept ih =>
    obtain ⟨m, there, grows, arises⟩ := ih
    exact ⟨m, kept e m there, grows, arises⟩

/-- What an effect answers at one moment, and from then on. -/
structure Coherent (host : Host (World L)) (bound e : Nat) (n : Namespace) (w : World L) :
    Prop where
  /-- No operation is there twice. -/
  once : n.operations.Pairwise fun o o' => o.same o' = false
  reads : (access (.effect e) "operations" w).1 = .ok (.tuple w.nextId n.operations) ∧
    (access (.effect e) "effect_name" w).1 = .ok (.str n.name) ∧
    (access (.effect e) "is_open" w).1 = .ok (.bool n.isOpen)
  member : ∀ o, ∃ b, (contains host bound (.str o) (.effect e) w).1 = .ok b ∧
    (b = true ↔ .str o ∈ n.operations)
  /-- What looks nothing up adds nothing, and neither does what fails. -/
  adds_nothing : ∀ q : Query,
    (q.seeks = none ∨ ∃ error, (q.ask host bound e w).1 = .raised error) →
      (q.ask host bound e w).2.effects.get? e = some n
  /-- An operation is found if it is there or if the effect is open. -/
  found : ∀ (q : Query) o, q.seeks = some (.str o) →
    ((∃ c, (q.ask host bound e w).1 = .ok c) ↔ .str o ∈ n.operations ∨ n.isOpen = true)
  /-- Once an operation has been found, it has that creator and its access changes no effect. -/
  creator : ∀ (q : Query) o c, q.seeks = some (.str o) → (q.ask host bound e w).1 = .ok c →
    (∃ id, c = .creator id (.str n.name) (.str o)) ∧
      ∀ w' (q' : Query), Visits host bound (q.ask host bound e w).2 w' →
        q'.seeks = some (.str o) →
          (q'.ask host bound e w').1 = .ok c ∧ (q'.ask host bound e w').2.effects = w'.effects
  derived : ∀ name, name ≠ "" →
    ∃ d m, ((Query.derive name).ask host bound e w).1 = .ok (.effect d) ∧
      w.effects.get? d = none ∧ ((Query.derive name).ask host bound e w).2.effects.get? d = some m ∧
      m.Arises ∧ m.name = name ∧ m.operations = n.operations ∧ m.isOpen = n.isOpen
  /-- No other effect is changed. -/
  apart : ∀ (q : Query) e' n', e' ≠ e → w.effects.get? e' = some n' →
    (q.ask host bound e w).2.effects.get? e' = some n'

theorem ask_known (host : Host (World L)) (bound : Nat) {o : String} {id : Nat}
    (known : w.effects.get? e = some n) (holds : n.creators.get? (.str o) = some id) {q : Query}
    (seeks : q.seeks = some (.str o)) :
    (q.ask host bound e w).1 = .ok (n.creatorValue (.str o) id) ∧
      (q.ask host bound e w).2.effects = w.effects := by
  have known_item := (n.item_found w.nextId o).of_known holds
  obtain ⟨c, m, answer, found, now⟩ | ⟨error, cause, -, missing, -⟩ :=
    (asked host bound known q).looks_up seeks
  · obtain ⟨rfl, rfl⟩ := Prod.mk.inj (Except.ok.inj (found.symm.trans known_item))
    exact ⟨answer, by rw [now, Pool.set_self known]⟩
  · cases missing.symm.trans known_item

theorem coherent (known : w.effects.get? e = some n) (arises : n.Arises) :
    Coherent host bound e n w where
  once := arises.lawful.once
  reads := by
    refine ⟨?_, ?_, ?_⟩ <;>
    · simp only [access]
      rw [effectAttribute, Exec.bind_ok (show Exec.read _ w = _ from rfl)]
      simp only [known]
      rfl
  member o := by
    rw [contains_effect host bound known (State.isKey_str o)]
    exact ⟨_, rfl, Assoc.contains_str⟩
  adds_nothing q nothing := by
    have asked := asked host bound known q
    generalize (q.ask host bound e w).1 = r, (q.ask host bound e w).2 = w' at asked nothing ⊢
    cases asked with
    | found seeks =>
      rw [seeks] at nothing
      obtain none | ⟨error, raised⟩ := nothing
      · cases none
      · cases raised
    | derived _ now => rw [now, Pool.get?_add_of_lt _ _ (Pool.lt_next known), known]
    | missing _ _ kept | hidden _ kept | own _ kept | member kept | underived _ kept =>
      rw [kept, known]
  found q o seeks := by
    rw [← (n.item_found w.nextId o).isOk_iff]
    obtain ⟨c, m, answer, found, -⟩ | ⟨error, cause, answer, missing, -⟩ :=
      (asked host bound known q).looks_up seeks
    · exact iff_of_true ⟨c, answer⟩ ⟨_, found⟩
    · rw [answer, missing]
      exact iff_of_false (by rintro ⟨_, ⟨⟩⟩) (by rintro ⟨_, ⟨⟩⟩)
  creator q o c seeks answer := by
    obtain ⟨c', m, answer', found, now⟩ | ⟨error, cause, raised, -, -⟩ :=
      (asked host bound known q).looks_up seeks
    · obtain rfl : c = c' := Result.ok.inj (answer.symm.trans answer')
      obtain ⟨name, id, rfl, holds⟩ := (found ▸ n.item_found w.nextId o).kept
      refine ⟨⟨id, rfl⟩, fun w' q' visits seeks' => ?_⟩
      have there : (q.ask host bound e w).2.effects.get? e = some m := by
        rw [now, Pool.get?_set_self known]
      -- Whatever comes in between, the creator is still there, since the effect only grows.
      obtain ⟨k, later, grows, -⟩ := visits.keeps there
      have again := ask_known host bound later (Assoc.get?_of_prefix grows.creators holds) seeks'
      rwa [Namespace.creatorValue, grows.name, name] at again
    · rw [answer] at raised
      cases raised
  derived name named := by
    obtain ⟨m, derives, sameName, operations, isOpen⟩ :=
      Namespace.derive_of_lawful arises.lawful named w.nextId
    obtain ⟨w', makes, now⟩ := makeEffect_ok derives
    have run : (Query.derive name).ask host bound e w = (.ok (.effect w.effects.next), w') :=
      (deriveFrom_known known _).trans makes
    rw [run]
    refine ⟨w.effects.next, m, rfl, ?_, ?_, .derived arises derives, sameName, operations, isOpen⟩
    · simp [Pool.get?, Pool.next]
    · rw [now, Pool.get?_next]
  apart q e' n' other there := by
    obtain ⟨m, later, -, -, same⟩ := (asked host bound known q).keeps known there
    rw [later, same other]

/-- Every history of visits: an effect that has arisen grows at its end only, and at every later
moment it is coherent. That goes for each effect that is derived on the way, too. -/
theorem effects_stay_coherent {w₀ : World L} {n₀ : Namespace} (known : w₀.effects.get? e = some n₀)
    (arises : n₀.Arises) (visits : Visits host bound w₀ w) :
    ∃ n, w.effects.get? e = some n ∧ n.Arises ∧ n₀.Grows n ∧ Coherent host bound e n w := by
  obtain ⟨n, now, grows, arisen⟩ := visits.keeps known
  exact ⟨n, now, arisen arises, grows, coherent now (arisen arises)⟩

end

/-- An open effect is asked for `read`. Then it has that operation and stays coherent. -/
theorem effects_stay_coherent_small :
    let host : Host (World ⟨Unit, Unit, Unit⟩) :=
      World.host (fun _ _ => Exec.exhausted) fun _ _ => Exec.exhausted
    let made := createEffect (.str "console") [] { memory := () }
    made.1 = .ok (.effect 0) ∧
      ∃ n, ((Query.access "read").ask host 0 0 made.2).2.effects.get? 0 = some n ∧ n.Arises ∧
        Namespace.Grows ⟨"console", [], true⟩ n ∧
        Coherent host 0 0 n ((Query.access "read").ask host 0 0 made.2).2 := by
  intro host made
  have given : createEffect (.str "console") [] { memory := () } = (.ok (.effect 0), made.2) := rfl
  have known : made.2.effects.get? 0 = some ⟨"console", [], true⟩ := rfl
  obtain ⟨e, n, answer, there, arises⟩ := createEffect_arises given
  obtain rfl := Value.effect.inj answer
  obtain rfl := Option.some.inj (known.symm.trans there)
  exact ⟨rfl, effects_stay_coherent known arises (.visit .start known (.access "read"))⟩

end World

end OneShot
