import Mathlib.Data.List.Nodup
import OneShot.Proofs.Interviews

/-!
# Ways to construct an effect

An effect that is made of a specification is the one that is made of its name and of the operations
that the specification declares, with the further ones behind them. A closed effect is the one that
its own name and operations make. Deriving twice is deriving once.
-/

namespace OneShot.World.Interview

variable {L : Language}

/-! ## Specifications -/

/-- The class is a specification with this effect name and these operations. -/
structure Describes (w : World L) (cls : Nat) (name : String) (declared : List String) : Prop where
  spec : ∃ c, w.classes.get? cls = some c ∧ c.isSpec = true
  goesBy : (access (.spec cls) Spec.effectNameAttribute w).1 = .ok (.str name)
  named : name ≠ ""
  operations : (operationsOf (.spec cls) w).1 = .ok declared

/-- The further operations that are not declared already. -/
def undeclared (declared extra : List String) : List String := extra.filter fun o => o ∉ declared

/-- A name that is not declared is given more than once. -/
def Repeats (declared extra : List String) : Prop := ∃ o, o ∉ declared ∧ 2 ≤ extra.count o

theorem isDeclared_str (declared : List String) (o : String) :
    isDeclared declared (.str o) = decide (o ∈ declared) := by
  rw [Bool.eq_iff_iff]
  simp [isDeclared, Value.same]

theorem filter_undeclared (declared extra : List String) :
    (extra.map Value.str).filter (fun o => !isDeclared declared o) =
      (undeclared declared extra).map .str := by
  rw [List.filter_map, undeclared]
  refine congrArg _ (List.filter_congr fun o _ => ?_)
  simp [isDeclared_str]

theorem undeclared_repeats {declared extra : List String} :
    ¬(undeclared declared extra).Nodup ↔ Repeats declared extra := by
  rw [List.nodup_iff_count_le_one, not_forall, Repeats]
  refine exists_congr fun o => ?_
  by_cases known : o ∈ declared
  · have none : (undeclared declared extra).count o = 0 :=
      List.count_eq_zero.mpr (by simp [undeclared, known])
    simp [known, none]
  · have all : (undeclared declared extra).count o = extra.count o :=
      List.count_filter (by simpa using known)
    rw [all]
    simp only [known, not_false_eq_true, true_and]
    omega

theorem nodup_names {declared : List String} (once : declared.Nodup) (extra : List String) :
    (declared ++ undeclared declared extra).Nodup ↔ (undeclared declared extra).Nodup := by
  rw [List.nodup_append]
  refine ⟨fun h => h.2.1, fun h => ⟨once, h, ?_⟩⟩
  rintro o known _ new rfl
  simp [undeclared, known] at new

section

variable {w : World L} {cls : Nat} {name : String} {declared : List String}

theorem access_spec {v : Value} (h : (access (.spec cls) name w).1 = .ok v) :
    access (.spec cls) name w = (.ok v, w) := by
  simp only [access] at h ⊢
  rw [Exec.bind_ok (show Exec.read _ w = _ from rfl)] at h ⊢
  cases found : w.attribute? (.spec cls) name with
  | none => rw [found] at h; cases h
  | some v' =>
    rw [found] at h
    obtain rfl : v' = v := Result.ok.inj h
    rfl

theorem Describes.once (h : Describes w cls name declared) : declared.Nodup := by
  obtain rfl : Spec.operations ((w.linearisation cls).map (·.2)) = declared :=
    Result.ok.inj h.operations
  exact Spec.nodup_addNames .nil

/-- A specification stands for its name and its operations. -/
theorem createEffect_spec (h : Describes w cls name declared) (extra : List String) :
    createEffect (.spec cls) (extra.map .str) w =
      createEffect (.str name) ((declared ++ undeclared declared extra).map .str) w := by
  obtain ⟨c, known, isSpec⟩ := h.spec
  have operations : operationsOf (.spec cls) w = (.ok declared, w) :=
    Prod.ext h.operations rfl
  rw [createEffect, createEffect]
  rw [Exec.bind_ok (show Exec.read _ w = _ from rfl)]
  simp only [known, isSpec, if_true]
  rw [Exec.bind_ok operations, Exec.bind_ok (access_spec h.goesBy), filter_undeclared,
    List.map_append]

end

/-! ## Names -/

/-- The run, from a world `w'`, gives an effect that cannot be told from the one in `w`. -/
def Repeated (host : Host (World L)) (bound : Nat) (w : World L) (e : Nat)
    (x : Exec (World L) Value) (w' : World L) : Prop :=
  ∃ e' w₁, x w' = (.ok (.effect e'), w₁) ∧ Indistinguishable host bound w e w₁ e'

theorem createEffect_ok {name : String} (named : name ≠ "") {operations : List Value}
    (keys : ∀ o ∈ operations, o.isKey = true)
    (once : operations.Pairwise fun o o' => o.same o' = false) (w : World L) :
    ∃ e n w₁, createEffect (.str name) operations w = (.ok (.effect e), w₁) ∧
      w₁.effects.get? e = some n ∧ n.name = name ∧ n.operations = operations ∧
      n.isOpen = operations.isEmpty := by
  obtain ⟨n, created, same⟩ := Namespace.create_of_lawful named keys once w.nextId
  obtain ⟨w₁, run, now⟩ : ∃ w₁, createEffect (.str name) operations w =
      (.ok (.effect w.effects.next), w₁) ∧ w₁.effects = (w.effects.add n).2 := makeEffect_ok created
  exact ⟨_, n, w₁, run, by rw [now, Pool.get?_next], same⟩

theorem names_keys (names : List String) : ∀ o ∈ names.map Value.str, o.isKey = true := by
  intro o there
  obtain ⟨s, -, rfl⟩ := List.mem_map.mp there
  exact State.isKey_str s

theorem names_once {names : List String} (once : names.Nodup) :
    (names.map Value.str).Pairwise fun o o' => o.same o' = false := by
  rw [List.pairwise_map]
  refine List.Pairwise.imp (fun {s t} other => ?_) once
  simpa [Value.same] using other

theorem createEffect_repeated {name : String} (named : name ≠ "") {names : List String}
    (repeated : ¬names.Nodup) (w : World L) :
    ∃ error w₁, createEffect (.str name) (names.map .str) w = (.raised error, w₁) ∧
      error.kind = .value := by
  obtain ⟨o, fails⟩ := Namespace.create_repeated named repeated w.nextId
  exact ⟨_, _, makeEffect_fails fails, rfl⟩

/-- An effect with the same name, operations and openness, wherever it is made. -/
theorem repeated_of_create {w : World L} {e : Nat} {n : Namespace}
    (host : Host (World L)) (bound : Nat) (known : w.effects.get? e = some n) (lawful : n.Lawful)
    (named : n.name ≠ "") (isOpen : n.isOpen = n.operations.isEmpty) (w' : World L) :
    Repeated host bound w e (createEffect (.str n.name) n.operations) w' := by
  obtain ⟨e', n', w₁, run, known', sameName, operations, isOpen'⟩ :=
    createEffect_ok named lawful.keys lawful.once w'
  have alike : n.Alike n' := ⟨sameName.symm, operations.symm, isOpen.trans isOpen'.symm⟩
  exact ⟨e', w₁, run, indistinguishable_of_alike host bound known known' alike lawful⟩

/-! ## The ways agree -/

/-- What the names that a specification declares, and further ones, make. It is refused if one of
the further names is new and given twice. Else it is the effect that the name and the operations
make, and it is open if there are no operations at all. -/
structure StandsFor (host : Host (World L)) (bound : Nat) (w : World L) (cls : Nat) (name : String)
    (declared extra : List String) : Prop where
  refused : (∃ error w₁, createEffect (.spec cls) (extra.map .str) w = (.raised error, w₁) ∧
    error.kind = .value) ↔ Repeats declared extra
  made : ¬Repeats declared extra →
    ∃ e w₁, createEffect (.spec cls) (extra.map .str) w = (.ok (.effect e), w₁) ∧
      let names := declared ++ undeclared declared extra
      (∃ b, (access (.effect e) "is_open" w₁).1 = .ok (.bool b) ∧ (b = true ↔ names = [])) ∧
      ∀ w', Repeated host bound w₁ e (createEffect (.str name) (names.map .str)) w'

/-- Deriving from a derived effect is deriving from the effect itself, as long as neither is asked
for operations in between. -/
def DerivesOnce (host : Host (World L)) (bound : Nat) (w : World L) (e : Nat)
    (first second : String) : Prop :=
  ∃ d w₁, derive (.str first) (.effect e) w = (.ok (.effect d), w₁) ∧
    ∀ w₂, w₂.effects.get? d = w₁.effects.get? d →
      ∃ d₂ w₃, derive (.str second) (.effect d) w₂ = (.ok (.effect d₂), w₃) ∧
        ∀ w', w'.effects.get? e = w.effects.get? e →
          Repeated host bound w₃ d₂ (derive (.str second) (.effect e)) w'

theorem standsFor_of_describes {w : World L} {cls : Nat} {name : String} {declared : List String}
    (host : Host (World L)) (bound : Nat) (h : Describes w cls name declared)
    (extra : List String) : StandsFor host bound w cls name declared extra := by
  let names := declared ++ undeclared declared extra
  have run : createEffect (.spec cls) (extra.map .str) w =
      createEffect (.str name) (names.map .str) w := createEffect_spec h extra
  have distinct : names.Nodup ↔ ¬Repeats declared extra := by
    rw [← undeclared_repeats, not_not]
    exact nodup_names h.once extra
  have gives (once : names.Nodup) := createEffect_ok h.named (names_keys names) (names_once once) w
  refine ⟨?_, fun unrepeated => ?_⟩
  · rw [run]
    refine ⟨?_, fun repeated => ?_⟩
    · rintro ⟨error, w₁, raised, -⟩
      by_contra unrepeated
      obtain ⟨e, n, w₁', given, -⟩ := gives (distinct.mpr unrepeated)
      cases raised.symm.trans given
    · exact createEffect_repeated h.named (fun once => distinct.mp once repeated) w
  · have once := distinct.mpr unrepeated
    obtain ⟨e, n, w₁, given, known, rfl, operations, isOpen⟩ := gives once
    have lawful : n.Lawful := ⟨operations ▸ names_keys names, operations ▸ names_once once⟩
    refine ⟨e, w₁, run.trans given, ⟨n.isOpen, ?_, ?_⟩, fun w' => ?_⟩
    · rw [access, effectAttribute, Exec.bind_ok (show Exec.read _ w₁ = _ from rfl)]
      simp only [known]
      rfl
    · rw [isOpen, List.isEmpty_iff, List.map_eq_nil_iff]
    · rw [← operations]
      exact repeated_of_create host bound known lawful h.named (operations ▸ isOpen) w'

theorem repeated_of_closed {w : World L} {e : Nat} {n : Namespace} (host : Host (World L))
    (bound : Nat) (known : w.effects.get? e = some n) (arises : n.Arises)
    (closed : n.isOpen = false) {name : Value} {id : Nat} {operations : List Value}
    (goesBy : (access (.effect e) "effect_name" w).1 = .ok name)
    (has : (access (.effect e) "operations" w).1 = .ok (.tuple id operations)) (w' : World L) :
    Repeated host bound w e (createEffect name operations) w' := by
  have reads : Coherent host bound e n w := coherent known arises
  obtain rfl : Value.str n.name = name := Result.ok.inj (reads.reads.2.1.symm.trans goesBy)
  obtain ⟨-, rfl⟩ : w.nextId = id ∧ n.operations = operations := by
    simpa using Result.ok.inj (reads.reads.1.symm.trans has)
  obtain ⟨named, operates⟩ := arises.sound
  have isOpen : n.isOpen = n.operations.isEmpty := by
    rw [closed, eq_comm, List.isEmpty_eq_false_iff]
    exact operates closed
  exact repeated_of_create host bound known arises.lawful named isOpen w'

theorem derivesOnce {w : World L} {e : Nat} {n : Namespace} (host : Host (World L))
    (bound : Nat) (known : w.effects.get? e = some n) (lawful : n.Lawful) {first second : String}
    (named : first ≠ "") (named' : second ≠ "") : DerivesOnce host bound w e first second := by
  have gives {w : World L} {e : Nat} {n : Namespace} (known : w.effects.get? e = some n)
      (lawful : n.Lawful) {name : String} (named : name ≠ "") :
      ∃ d m w₁, derive (.str name) (.effect e) w = (.ok (.effect d), w₁) ∧
        w₁.effects.get? d = some m ∧ m.Lawful ∧ m.name = name ∧ m.operations = n.operations ∧
        m.isOpen = n.isOpen := by
    obtain ⟨m, derives, same⟩ := Namespace.derive_of_lawful lawful named w.nextId
    obtain ⟨w₁, run, now⟩ := makeEffect_ok derives
    exact ⟨_, m, w₁, (deriveFrom_known known _).trans run, by rw [now, Pool.get?_next],
      Namespace.lawful_of_derive derives, same⟩
  obtain ⟨d, m, w₁, run, known₁, lawful₁, -, operations, isOpen⟩ := gives known lawful named
  refine ⟨d, w₁, run, fun w₂ same => ?_⟩
  obtain ⟨d₂, m₂, w₃, run₂, known₂, lawful₂, name₂, operations₂, isOpen₂⟩ :=
    gives (same.trans known₁) lawful₁ named'
  refine ⟨d₂, w₃, run₂, fun w' same' => ?_⟩
  obtain ⟨d', m', w₄, run', known', -, name', operations', isOpen'⟩ :=
    gives (same'.trans known) lawful named'
  have alike : m₂.Alike m' :=
    { name := name₂.trans name'.symm
      operations := operations₂.trans (operations.trans operations'.symm)
      isOpen := isOpen₂.trans (isOpen.trans isOpen'.symm) }
  exact ⟨d', w₄, run', indistinguishable_of_alike host bound known₂ known' alike lawful₂⟩

/-- However an effect comes about, it behaves as its name and its operations say. That goes for one
that is made of a specification, for one that is made again of what a closed effect tells, and for
one that is derived in two steps. -/
theorem constructions_agree (host : Host (World L)) (bound : Nat) (w : World L) :
    (∀ cls name declared, Describes w cls name declared →
      ∀ extra, StandsFor host bound w cls name declared extra) ∧
    ∀ e n, w.effects.get? e = some n → n.Arises →
      (n.isOpen = false → ∀ name id operations,
        (access (.effect e) "effect_name" w).1 = .ok name →
        (access (.effect e) "operations" w).1 = .ok (.tuple id operations) →
        ∀ w', Repeated host bound w e (createEffect name operations) w') ∧
      ∀ first second, first ≠ "" → second ≠ "" → DerivesOnce host bound w e first second := by
  refine ⟨fun _ _ _ h extra => standsFor_of_describes host bound h extra, ?_⟩
  intro e n known arises
  refine ⟨fun closed name id operations goesBy has w' => ?_, fun first second named named' => ?_⟩
  · exact repeated_of_closed host bound known arises closed goesBy has w'
  · exact derivesOnce host bound known arises.lawful named named'

namespace SmallShop

def language : Language := ⟨Unit, Unit, Unit⟩

def still : Host (World language) :=
  World.host (fun _ _ => Exec.exhausted) fun _ _ => Exec.exhausted

/-- A specification that declares `buy`, and a closed effect. -/
def shop : World language :=
  { memory := ()
    classes := ⟨#[⟨"Shop", "market", true, [],
      [⟨"buy", .method 2⟩, ⟨Spec.effectNameAttribute, .constant (.str "shop")⟩], [0]⟩]⟩
    effects := ⟨#[⟨"till", [(.str "open", 0)], false⟩]⟩ }

theorem describes_shop : Describes shop 0 "shop" ["buy"] where
  spec := ⟨_, rfl, rfl⟩
  goesBy := rfl
  named := by decide
  operations := by
    have names : Spec.operations ((shop.linearisation 0).map (·.2)) = ["buy"] := by decide +kernel
    exact congrArg Result.ok names

theorem arises_till : Namespace.Arises ⟨"till", [(.str "open", 0)], false⟩ := by
  have begun : Namespace.start (.str "till") = .ok ⟨"till", [], false⟩ := rfl
  have added : Namespace.add ⟨"till", [], false⟩ 0 (.str "open") =
      .ok ⟨"till", [(.str "open", 0)], false⟩ := rfl
  exact .made (.add (.start begun) added)

end SmallShop

open SmallShop in
/-- A shop that sells as well, a till that is made again, and one that is derived twice. -/
theorem constructions_agree_small :
    StandsFor still 1 shop 0 "shop" ["buy"] ["sell", "buy"] ∧
      Repeated still 1 shop 0 (createEffect (.str "till") [.str "open"]) shop ∧
      DerivesOnce still 1 shop 0 "desk" "drawer" := by
  obtain ⟨specifications, effects⟩ := constructions_agree still 1 shop
  obtain ⟨closed, derives⟩ := effects 0 _ rfl arises_till
  exact ⟨specifications 0 "shop" ["buy"] describes_shop _, closed rfl _ _ _ rfl rfl shop,
    derives _ _ (by decide) (by decide)⟩

end OneShot.World.Interview
