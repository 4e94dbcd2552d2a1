import OneShot.Proofs.Likeness
import OneShot.Proofs.Linearisations
import OneShot.Proofs.Visits

/-!
# Interviews of effects

An effect is asked for names, operations and derived effects, and these are asked in their turn. In
between, anything can happen that leaves the effects that are asked alone. Two effects that are
alike give the same answers, however long they are asked. So it makes no difference whether an
effect is made of a specification or of the names that this stands for.
-/

namespace OneShot.World.Interview

variable {L : Language}

/-! ## Questions -/

/-- A query to one of the effects that have come up so far, which are counted in that order. -/
structure Question where
  place : Nat
  query : Query

/-- A question, and what others do to the world before it. They may know which effects are asked and
leave these as they are. -/
structure Turn (L : Language) where
  question : Question
  change : List Nat → World L → World L
  keeps : ∀ family w, ∀ e ∈ family, (change family w).effects.get? e = w.effects.get? e

/-! ## Answers -/

/-- A value without what tells it apart from others like it. An effect goes by its place. -/
def blank (family : List Nat) : Value → Value
  | .creator _ effect operation => .creator 0 effect operation
  | .tuple _ items => .tuple 0 items
  | .effect e => .effect (family.idxOf e)
  | .method (.effect e) m => .method (.effect (family.idxOf e)) m
  | v => v

/-- An answer as the one who asks sees it. -/
def seen (family : List Nat) : Result Value → Result Value
  | .ok v => .ok (blank family v)
  | .raised e => .raised { e with id := 0 }
  | .exhausted => .exhausted

/-- The effects that come up with an answer. -/
def newcomers : Result Value → List Nat
  | .ok (.effect e) => [e]
  | _ => []

/-- The answers to questions that are asked one after the other. A question to an effect that has
not come up yet is passed over. -/
def interview (host : Host (World L)) (bound : Nat) :
    List (Turn L) → List Nat → World L → List (Result Value)
  | [], _, _ => []
  | turn :: turns, family, w =>
    match family[turn.question.place]? with
    | none => interview host bound turns family (turn.change family w)
    | some e =>
      let (answer, w₁) := turn.question.query.ask host bound e (turn.change family w)
      let family₁ := family ++ newcomers answer
      seen family₁ answer :: interview host bound turns family₁ w₁

/-- Whoever asks the two effects the same questions gets the same answers, whatever else happens in
the two worlds in between. -/
def Indistinguishable (host : Host (World L)) (bound : Nat) (w : World L) (e : Nat)
    (w' : World L) (e' : Nat) : Prop :=
  ∀ turns turns' : List (Turn L), turns.map Turn.question = turns'.map Turn.question →
    interview host bound turns [e] w = interview host bound turns' [e'] w'

/-! ## Reasons -/

/-- The text of an error for this reason is the same in every world. -/
def Fixed (L : Language) (cause : Cause Value) : Prop :=
  ∀ w w' : World L, w.argumentOf cause = w'.argumentOf cause

section

variable {n : Namespace} {next : Nat} {cause : Cause Value}

theorem fixed_item {o : Value} (h : n.item next o = .error cause) : Fixed L cause := by
  unfold Namespace.item at h
  split at h
  · cases h
    exact fun _ _ => rfl
  · split at h
    · cases h
    · split at h
      · cases h
      · cases h
        exact fun _ _ => rfl

theorem fixed_named {o : String} (h : n.named next o = .error cause) : Fixed L cause := by
  unfold Namespace.named at h
  split at h
  · cases h
    exact fun _ _ => rfl
  · split at h
    · cases h
    · split at h <;>
      · cases h
        exact fun _ _ => rfl

theorem inspectWithin_str (w : World L) (depth : Nat) (inside : List Value) (s : String) :
    inspectWithin w (depth + 1) inside (.str s) = Text.quoted s := rfl

theorem inspect_str (w : World L) (s : String) : w.inspect (.str s) = Text.quoted s := by
  obtain ⟨depth, positive⟩ : ∃ depth, textDepth = depth + 1 := ⟨99999, rfl⟩
  rw [inspect, positive, inspectWithin_str]

theorem fixed_derive (lawful : n.Lawful) {name : String}
    (h : n.derive (.str name) next = .error cause) : Fixed L cause := by
  by_cases named : name = ""
  · subst named
    obtain rfl : Cause.effectName (.str "") = cause := Except.error.inj h
    intro w w'
    simp only [argumentOf, inspect_str]
  · obtain ⟨d, derived, -⟩ := Namespace.derive_of_lawful lawful named next
    cases derived.symm.trans h

end

/-! ## One question -/

/-- How two effects that are alike respond to the same question. -/
inductive Response (w w' : World L) (e e' : Nat) :
    Result Value × World L → Result Value × World L → Prop where
  | found {n m id id' effect operation w₁ w₁'} (alike : n.Alike m) (lawful : n.Lawful)
      (now : w₁.effects = w.effects.set e n) (now' : w₁'.effects = w'.effects.set e' m) :
      Response w w' e e' (.ok (.creator id effect operation), w₁)
        (.ok (.creator id' effect operation), w₁')
  | text {w₁ w₁'} (s : String) (kept : w₁.effects = w.effects) (kept' : w₁'.effects = w'.effects) :
      Response w w' e e' (.ok (.str s), w₁) (.ok (.str s), w₁')
  | flag {w₁ w₁'} (b : Bool) (kept : w₁.effects = w.effects) (kept' : w₁'.effects = w'.effects) :
      Response w w' e e' (.ok (.bool b), w₁) (.ok (.bool b), w₁')
  | list {id id' w₁ w₁'} (items : List Value) (kept : w₁.effects = w.effects)
      (kept' : w₁'.effects = w'.effects) :
      Response w w' e e' (.ok (.tuple id items), w₁) (.ok (.tuple id' items), w₁')
  | method {w₁ w₁'} (kept : w₁.effects = w.effects) (kept' : w₁'.effects = w'.effects) :
      Response w w' e e' (.ok (.method (.effect e) .derive), w₁)
        (.ok (.method (.effect e') .derive), w₁')
  | failed {error error' w₁ w₁'} (cause : error.cause = error'.cause)
      (argument : error.argument = error'.argument) (kept : w₁.effects = w.effects)
      (kept' : w₁'.effects = w'.effects) :
      Response w w' e e' (.raised error, w₁) (.raised error', w₁')
  | derived {n m w₁ w₁'} (alike : n.Alike m) (lawful : n.Lawful)
      (now : w₁.effects = (w.effects.add n).2) (now' : w₁'.effects = (w'.effects.add m).2) :
      Response w w' e e' (.ok (.effect w.effects.next), w₁) (.ok (.effect w'.effects.next), w₁')

section

variable {w w' : World L} {e e' : Nat} {n m : Namespace}

theorem responds_fail (cause : Cause Value) (fixed : Fixed L cause) {w₁ w₁' : World L}
    (kept : w₁.effects = w.effects) (kept' : w₁'.effects = w'.effects) :
    Response w w' e e' (fail cause w₁) (fail cause w₁') :=
  .failed rfl (fixed w₁ w₁') kept kept'

theorem responds_creatorFrom
    {ask : Namespace → Nat → Except (Cause Value) (Value × Namespace)}
    (known : w.effects.get? e = some n) (known' : w'.effects.get? e' = some m)
    (found : Namespace.Likewise Namespace.AlikeFound (ask n w.nextId) (ask m w'.nextId))
    (lawful : ∀ c n', ask n w.nextId = .ok (c, n') → n'.Lawful)
    (fixed : ∀ cause, ask n w.nextId = .error cause → Fixed L cause) :
    Response w w' e e' (creatorFrom e ask w) (creatorFrom e' ask w') := by
  generalize first : ask n w.nextId = r, second : ask m w'.nextId = r' at found
  cases found with
  | @ok f f' alike =>
    obtain ⟨c, n'⟩ := f
    obtain ⟨c', m'⟩ := f'
    obtain ⟨alike, id, id', effect, operation, rfl, rfl⟩ := alike
    rw [creatorFrom_ok known first, creatorFrom_ok known' second]
    exact .found alike (lawful _ _ first) rfl rfl
  | error cause =>
    rw [creatorFrom_fails known first, creatorFrom_fails known' second]
    exact responds_fail cause (fixed cause first) rfl rfl

theorem responds_attribute (known : w.effects.get? e = some n)
    (known' : w'.effects.get? e' = some m) (alike : n.Alike m) (lawful : n.Lawful)
    (name : String) :
    Response w w' e e' (effectAttribute e name w) (effectAttribute e' name w') := by
  rw [effectAttribute, Exec.bind_ok (show Exec.read _ w = _ from rfl), effectAttribute,
    Exec.bind_ok (show Exec.read _ w' = _ from rfl)]
  simp only [known, known']
  split
  · rw [alike.name]
    exact .text m.name rfl rfl
  · rw [alike.operations]
    exact .list m.operations rfl rfl
  · rw [alike.isOpen]
    exact .flag m.isOpen rfl rfl
  · exact .method rfl rfl
  · exact responds_creatorFrom known known' (alike.named _ _ name)
      (fun c n' found => lawful.item (Namespace.named_eq_ok.mp found).2)
      (fun cause => fixed_named)

theorem responds_member (host : Host (World L)) (bound : Nat) (known : w.effects.get? e = some n)
    (known' : w'.effects.get? e' = some m) (alike : n.Alike m) (operation : Value) :
    Response w w' e e' ((Query.member operation).ask host bound e w)
      ((Query.member operation).ask host bound e' w') := by
  by_cases key : operation.isKey = true
  · have same : n.contains operation = m.contains operation := by
      have entries := congrArg Option.isSome (alike.entry? operation)
      simpa only [Namespace.contains, Assoc.contains, Assoc.get?, Option.isSome_map] using entries
    rw [Query.ask, Query.ask, Exec.bind_ok (contains_effect host bound known key),
      Exec.bind_ok (contains_effect host bound known' key), same]
    exact .flag _ rfl rfl
  · rw [member_refused host bound e key, member_refused host bound e' key]
    exact responds_fail (.refused operation.keyRefusal) (fun _ _ => rfl) rfl rfl

theorem responds_derive (known : w.effects.get? e = some n) (known' : w'.effects.get? e' = some m)
    (alike : n.Alike m) (lawful : n.Lawful) (name : String) :
    Response w w' e e' (derive (.str name) (.effect e) w) (derive (.str name) (.effect e') w') := by
  have run : derive (.str name) (.effect e) w = makeEffect (n.derive (.str name)) w :=
    deriveFrom_known known _
  have run' : derive (.str name) (.effect e') w' = makeEffect (m.derive (.str name)) w' :=
    deriveFrom_known known' _
  rw [run, run']
  have derives := alike.derive lawful name w.nextId w'.nextId
  generalize first : n.derive (.str name) w.nextId = r, second : m.derive (.str name) w'.nextId = r'
    at derives
  cases derives with
  | @ok d d' alike =>
    obtain ⟨w₁, made, now⟩ := makeEffect_ok first
    obtain ⟨w₁', made', now'⟩ := makeEffect_ok second
    rw [made, made']
    exact .derived alike (Namespace.lawful_of_derive first) now now'
  | error cause =>
    rw [makeEffect_fails first, makeEffect_fails second]
    exact responds_fail cause (fixed_derive lawful first) rfl rfl

/-- Whatever the question is, both respond alike. -/
theorem responds (host : Host (World L)) (bound : Nat) (known : w.effects.get? e = some n)
    (known' : w'.effects.get? e' = some m) (alike : n.Alike m) (lawful : n.Lawful) (q : Query) :
    Response w w' e e' (q.ask host bound e w) (q.ask host bound e' w') := by
  cases q with
  | access name => exact responds_attribute known known' alike lawful name
  | item operation =>
    exact responds_creatorFrom known known' (alike.item _ _ operation)
      (fun c n' found => lawful.item found) (fun cause => fixed_item)
  | member operation => exact responds_member host bound known known' alike operation
  | derive name => exact responds_derive known known' alike lawful name

end

/-! ## All questions -/

/-- At each place the two families have effects that are alike. No family has the same effect
twice. -/
structure Paired (w w' : World L) (family family' : List Nat) : Prop where
  length : family.length = family'.length
  alike : ∀ i e e' : Nat, family[i]? = some e → family'[i]? = some e' →
    ∃ n m, w.effects.get? e = some n ∧ w'.effects.get? e' = some m ∧ n.Alike m ∧ n.Lawful
  once : family.Nodup
  once' : family'.Nodup

section

variable {w w' w₁ w₁' : World L} {family family' : List Nat} {e e' i : Nat}

theorem idxOf_place (once : family.Nodup) (place : family[i]? = some e) : family.idxOf e = i := by
  obtain ⟨within, rfl⟩ := List.getElem?_eq_some_iff.mp place
  exact once.idxOf_getElem i within

theorem Paired.of_kept (h : Paired w w' family family')
    (kept : ∀ e ∈ family, w₁.effects.get? e = w.effects.get? e)
    (kept' : ∀ e ∈ family', w₁'.effects.get? e = w'.effects.get? e) :
    Paired w₁ w₁' family family' where
  length := h.length
  alike i e e' place place' := by
    rw [kept e (List.mem_of_getElem? place), kept' e' (List.mem_of_getElem? place')]
    exact h.alike i e e' place place'
  once := h.once
  once' := h.once'

theorem Paired.set (h : Paired w w' family family') (place : family[i]? = some e)
    (place' : family'[i]? = some e') {n m : Namespace} (alike : n.Alike m) (lawful : n.Lawful)
    (now : w₁.effects = w.effects.set e n) (now' : w₁'.effects = w'.effects.set e' m) :
    Paired w₁ w₁' family family' where
  length := h.length
  alike j d d' at_j at_j' := by
    obtain ⟨k, l, known, known', like⟩ := h.alike j d d' at_j at_j'
    rw [now, now']
    by_cases same : j = i
    · subst same
      obtain rfl := Option.some.inj (place.symm.trans at_j)
      obtain rfl := Option.some.inj (place'.symm.trans at_j')
      exact ⟨n, m, Pool.get?_set_self known n, Pool.get?_set_self known' m, alike, lawful⟩
    · have other : e ≠ d := by
        rintro rfl
        exact same ((idxOf_place h.once at_j).symm.trans (idxOf_place h.once place))
      have other' : e' ≠ d' := by
        rintro rfl
        exact same ((idxOf_place h.once' at_j').symm.trans (idxOf_place h.once' place'))
      rw [Pool.get?_set_of_ne _ _ other, Pool.get?_set_of_ne _ _ other']
      exact ⟨k, l, known, known', like⟩
  once := h.once
  once' := h.once'

theorem Paired.known (h : Paired w w' family family') (there : e ∈ family) :
    ∃ n, w.effects.get? e = some n := by
  obtain ⟨i, place⟩ := List.getElem?_of_mem there
  obtain ⟨within, -⟩ := List.getElem?_eq_some_iff.mp place
  obtain ⟨n, -, known, -⟩ := h.alike i e _ place (List.getElem?_eq_getElem (h.length ▸ within))
  exact ⟨n, known⟩

theorem Paired.known' (h : Paired w w' family family') (there : e' ∈ family') :
    ∃ m, w'.effects.get? e' = some m := by
  obtain ⟨i, place⟩ := List.getElem?_of_mem there
  obtain ⟨within, -⟩ := List.getElem?_eq_some_iff.mp place
  obtain ⟨-, m, -, known, -⟩ := h.alike i _ e' (List.getElem?_eq_getElem (h.length ▸ within)) place
  exact ⟨m, known⟩

theorem nodup_newcomer {α : Type} {known : Pool α} (once : family.Nodup)
    (all : ∀ e ∈ family, ∃ a, known.get? e = some a) : (family ++ [known.next]).Nodup := by
  refine List.nodup_append.mpr ⟨once, List.pairwise_singleton _ _, ?_⟩
  rintro d there e last rfl
  obtain ⟨a, old⟩ := all d there
  obtain rfl := List.mem_singleton.mp last
  exact absurd (Pool.lt_next old) (Nat.lt_irrefl _)

theorem Paired.add (h : Paired w w' family family') {n m : Namespace} (alike : n.Alike m)
    (lawful : n.Lawful) (now : w₁.effects = (w.effects.add n).2)
    (now' : w₁'.effects = (w'.effects.add m).2) :
    Paired w₁ w₁' (family ++ [w.effects.next]) (family' ++ [w'.effects.next]) where
  length := by simp [h.length]
  alike i d d' place place' := by
    rw [now, now']
    rw [List.getElem?_append] at place place'
    rw [← h.length] at place'
    split at place
    · rename_i within
      rw [if_pos within] at place'
      obtain ⟨k, l, known, known', like⟩ := h.alike i d d' place place'
      rw [Pool.get?_add_of_lt _ _ (Pool.lt_next known),
        Pool.get?_add_of_lt _ _ (Pool.lt_next known')]
      exact ⟨k, l, known, known', like⟩
    · rename_i after
      rw [if_neg after] at place'
      obtain rfl := List.mem_singleton.mp (List.mem_of_getElem? place)
      obtain rfl := List.mem_singleton.mp (List.mem_of_getElem? place')
      exact ⟨n, m, Pool.get?_next _ _, Pool.get?_next _ _, alike, lawful⟩
  once := nodup_newcomer h.once fun _ => h.known
  once' := nodup_newcomer h.once' fun _ => h.known'

theorem Response.paired {x x' : Result Value × World L} (response : Response w w' e e' x x')
    (h : Paired w w' family family') (place : family[i]? = some e)
    (place' : family'[i]? = some e') :
    seen (family ++ newcomers x.1) x.1 = seen (family' ++ newcomers x'.1) x'.1 ∧
      Paired x.2 x'.2 (family ++ newcomers x.1) (family' ++ newcomers x'.1) := by
  have still {w₁ w₁' : World L} (kept : w₁.effects = w.effects) (kept' : w₁'.effects = w'.effects) :
      Paired w₁ w₁' (family ++ []) (family' ++ []) := by
    rw [List.append_nil, List.append_nil]
    exact h.of_kept (fun _ _ => by rw [kept]) fun _ _ => by rw [kept']
  -- A look-up changes one place of both families, a derivation adds one, and all else leaves them.
  cases response with
  | found alike lawful now now' =>
    refine ⟨rfl, ?_⟩
    simp only [newcomers, List.append_nil]
    exact h.set place place' alike lawful now now'
  | text s kept kept' => exact ⟨rfl, still kept kept'⟩
  | flag b kept kept' => exact ⟨rfl, still kept kept'⟩
  | list items kept kept' => exact ⟨rfl, still kept kept'⟩
  | method kept kept' =>
    refine ⟨?_, still kept kept'⟩
    simp only [newcomers, List.append_nil, seen, blank]
    rw [idxOf_place h.once place, idxOf_place h.once' place']
  | @failed error error' _ _ cause argument kept kept' =>
    refine ⟨?_, still kept kept'⟩
    simp only [seen, cause, argument]
  | derived alike lawful now now' =>
    have paired := h.add alike lawful now now'
    refine ⟨?_, paired⟩
    have last : (family ++ [w.effects.next])[family.length]? = some w.effects.next := by simp
    have last' : (family' ++ [w'.effects.next])[family.length]? = some w'.effects.next := by
      simp [h.length]
    simp only [newcomers, seen, blank]
    rw [idxOf_place paired.once last, idxOf_place paired.once' last']

/-- From paired families on, the same questions get the same answers. -/
theorem Paired.interviews (host : Host (World L)) (bound : Nat) (h : Paired w w' family family')
    {turns turns' : List (Turn L)} (same : turns.map Turn.question = turns'.map Turn.question) :
    interview host bound turns family w = interview host bound turns' family' w' := by
  induction turns generalizing turns' family family' w w' with
  | nil =>
    obtain rfl := List.map_eq_nil_iff.mp same.symm
    rfl
  | cons turn turns ih =>
    cases turns' with
    | nil => cases same
    | cons turn' turns' =>
      obtain ⟨question, same⟩ := List.cons.inj same
      have now := h.of_kept (turn.keeps family w) (turn'.keeps family' w')
      simp only [interview, ← question]
      cases place : family[turn.question.place]? with
      | none =>
        have place' : family'[turn.question.place]? = none := by
          rw [List.getElem?_eq_none_iff] at place ⊢
          exact h.length ▸ place
        rw [place']
        exact ih now same
      | some e =>
        obtain ⟨within, -⟩ := List.getElem?_eq_some_iff.mp place
        have place' := List.getElem?_eq_getElem (h.length ▸ within)
        rw [place']
        obtain ⟨n, m, known, known', alike, lawful⟩ := now.alike _ _ _ place place'
        have response := responds host bound known known' alike lawful turn.question.query
        obtain ⟨answers, paired⟩ := response.paired now place place'
        exact congrArg₂ List.cons answers (ih paired same)

/-- Effects that are alike cannot be told apart. -/
theorem indistinguishable_of_alike (host : Host (World L)) (bound : Nat) {n m : Namespace}
    (known : w.effects.get? e = some n) (known' : w'.effects.get? e' = some m)
    (alike : n.Alike m) (lawful : n.Lawful) : Indistinguishable host bound w e w' e' := by
  intro turns turns' same
  have paired : Paired w w' [e] [e'] := by
    refine ⟨rfl, ?_, List.pairwise_singleton _ e, List.pairwise_singleton _ e'⟩
    intro i d d' place place'
    obtain rfl := List.mem_singleton.mp (List.mem_of_getElem? place)
    obtain rfl := List.mem_singleton.mp (List.mem_of_getElem? place')
    exact ⟨n, m, known, known', alike, lawful⟩
  exact paired.interviews host bound same

end

end OneShot.World.Interview
