import OneShot.Proofs.Mirrors
import OneShot.Proofs.Renaming
import OneShot.Proofs.Visits

/-!
# Renamed copies of programs

A program that yields renamed actions runs under the renamed table as the program itself does. So a
program that is given a derived effect runs as with the effect that it is derived from.
-/

namespace OneShot

open Dispatch (handling)
open Exec (Matches matches_pure)

namespace Renaming

variable {L : Language} (r : Renaming)

/-- The first handling runs as the second one: whatever the driver sends, it sees the same but for
the names, and the same calls are made with the same arguments in the same order. So it is at the
top of a run. -/
structure RunsAs (R : World L → World L → Prop) (host host' : Host (World L)) (t t' : Table)
    (c c' : Source (World L)) : Prop where
  driven : ∀ bound driver,
    Matches (Beside (Beside R Eq) (Life.Mirrors (Dispatch.Phase.Mirrors r.Copy))) r.Fault
      (List.Forall₂ (Sight.Mirrors r.Fault r.Copy))
      (session (handling host.recorded t c.beside bound) driver)
      (session (handling host'.recorded t' c'.beside bound) driver)
  run : ∀ bound,
    Matches (Beside (Beside R Eq) (Life.Mirrors (Dispatch.Phase.Mirrors r.Copy))) r.Fault Eq
      (TopLevel.finish host.recorded.beside (handling host.recorded t c.beside bound))
      (TopLevel.finish host'.recorded.beside (handling host'.recorded t' c'.beside bound))

/-- The second program is the first one with other names: all that its computations yield is
renamed. The entries do not look at the action of their token. -/
structure Renames (R : World L → World L → Prop) (t : Table)
    (drive drive' : Nat → Value → Exec (World L) Step)
    (call call' : Value → List Value → Exec (World L) Value) (c c' : Source (World L)) : Prop where
  worlds : World.Relabels r R
  source : ∀ v, Matches R r.Fault (Step.Mirrors r.Copy) (c v) (c' v)
  bodies : ∀ n v, Matches R r.Fault (Step.Mirrors r.Copy) (drive n v) (drive' n v)
  entries : ∀ f arguments, f.isCallable = true ∧ (∃ x, t.claim x = .entry f) →
    Matches R r.Fault Eq (call f arguments) (call' f arguments)

variable {r}

theorem Renames.runs {R : World L → World L → Prop} {t : Table}
    {drive drive' : Nat → Value → Exec (World L) Step}
    {call call' : Value → List Value → Exec (World L) Value} {c c' : Source (World L)}
    (h : r.Renames R t drive drive' call call' c c') :
    r.RunsAs R (World.host drive call).quiet (World.host drive' call').quiet t (r.table t) c
      c' := by
  have services := (h.worlds.host h.bodies h.entries).recorded
  have handles (bound : Nat) := Dispatch.mirrors_handling services Fault.kind (r.mirrors_table t)
    (fun v => (h.source v).beside Eq) bound
  exact ⟨fun bound => mirrors_session (handles bound),
    fun bound => TopLevel.mirrors_finish (services.beside _) (handles bound)⟩

end Renaming

namespace World

variable {L : Language}

/-! ## Programs that are given an effect -/

/-- What a program yields that is given an effect: an action of an operation that it looks up by
name or as an item, or anything else. -/
inductive Wish where
  | named (o : String) (parameters : List Value)
  | item (o : String) (parameters : List Value)
  | other (x : Value)

namespace Wish

def grant (e : Nat) : Wish → Exec (World L) Value
  | .named o parameters => do
    callMethod (← access (.effect e) o) .makeAction parameters
  | .item o parameters => do
    callMethod (← World.item (.effect e) (.str o)) .makeAction parameters
  | .other x => pure x

/-- The effect has the operation, and gives it for its name. Nothing else that is yielded goes by
one of the two names. -/
def Fits (n : Namespace) (name : String) : Wish → Prop
  | .named o _ => o ∉ Namespace.ownNames ∧ o.startsWith "_" = false ∧ .str o ∈ n.operations
  | .item o _ => .str o ∈ n.operations
  | .other x => ∀ i o t parameters,
    x ≠ .action i (.str n.name) o t parameters ∧ x ≠ .action i (.str name) o t parameters

end Wish

/-- A program that is given the effect `e`. It has actions made of it and knows nothing else of it.
-/
def given (e : Nat) (c : Value → Exec (World L) (Wish ⊕ Value)) : Source (World L) := fun v => do
  match ← c v with
  | .inl wish => return .suspended (← wish.grant e)
  | .inr result => return .completed result

section

variable {w : World L} {e : Nat} {n : Namespace} {o : String}

theorem creatorFrom_known {ask : Namespace → Nat → Except (Cause Value) (Value × Namespace)}
    (known : w.effects.get? e = some n) {c : Value} (found : ask n w.nextId = .ok (c, n)) :
    creatorFrom e ask w = (.ok c, (w.takeIds 1).2) := by
  rw [creatorFrom_ok known found]
  refine Prod.ext rfl ?_
  simp only [setEffect, takeIds, Pool.set_self known]

theorem effectAttribute_operation (known : w.effects.get? e = some n)
    (other : o ∉ Namespace.ownNames) :
    effectAttribute e o w = creatorFrom e (fun n next => n.named next o) w := by
  have read : effectAttribute e o w = _ := Exec.bind_ok (show Exec.read _ w = _ from rfl)
  rw [read]
  simp only [known]
  split
  case h_5 => rfl
  all_goals simp [Namespace.ownNames] at other

theorem grant_operation {wish : Wish} {parameters : List Value}
    (known : w.effects.get? e = some n) (holds : .str o ∈ n.operations)
    (asks : wish = .named o parameters ∧ o ∉ Namespace.ownNames ∧ o.startsWith "_" = false ∨
      wish = .item o parameters) :
    wish.grant e w = (.ok (.action (w.nextId + 1) (.str n.name) (.str o) (w.nextId + 2) parameters),
      ((w.takeIds 1).2.takeIds 2).2) := by
  obtain ⟨id, there⟩ : ∃ id, n.creators.get? (.str o) = some id :=
    Option.isSome_iff_exists.mp (Assoc.contains_str.mpr holds)
  have found := (n.item_found w.nextId o).of_known there
  obtain ⟨rfl, other, shown⟩ | rfl := asks
  · have looks : access (.effect e) o w = (.ok (n.creatorValue (.str o) id), (w.takeIds 1).2) :=
      (effectAttribute_operation known other).trans
        (creatorFrom_known known (Namespace.named_eq_ok.mpr ⟨shown, found⟩))
    rw [Wish.grant, Exec.bind_ok looks]
    rfl
  · have looks : World.item (.effect e) (.str o) w =
        (.ok (n.creatorValue (.str o) id), (w.takeIds 1).2) :=
      creatorFrom_known known found
    rw [Wish.grant, Exec.bind_ok looks]
    rfl

end

/-! ## Effects that are derived -/

section

variable {E D : Namespace} {e d : Nat} {R : World L → World L → Prop}

/-- The same program is given one effect and its copy. All that it yields, and that the computations
of its handlers yield, fits. It and the entries do not look at the action of a token. -/
structure Uses (E D : Namespace) (e d : Nat) (R : World L → World L → Prop) (t : Table)
    (bodies : Nat → Value → Exec (World L) (Wish ⊕ Value))
    (call : Value → List Value → Exec (World L) Value)
    (c : Value → Exec (World L) (Wish ⊕ Value)) : Prop where
  worlds : Relabels (.swap E.name D.name) R
  effects : ∀ {w w'}, R w w' → w.effects.get? e = some E ∧ w'.effects.get? d = some D
  source : ∀ v, Matches R (Renaming.swap E.name D.name).Fault
    (fun a b => a = b ∧ ∀ wish, a = .inl wish → wish.Fits E D.name) (c v) (c v)
  bodies : ∀ k v, Matches R (Renaming.swap E.name D.name).Fault
    (fun a b => a = b ∧ ∀ wish, a = .inl wish → wish.Fits E D.name) (bodies k v) (bodies k v)
  entries : ∀ f arguments, f.isCallable = true ∧ (∃ x, t.claim x = .entry f) →
    Matches R (Renaming.swap E.name D.name).Fault Eq (call f arguments) (call f arguments)

variable (worlds : Relabels (.swap E.name D.name) R)
  (effects : ∀ {w w'}, R w w' → w.effects.get? e = some E ∧ w'.effects.get? d = some D)
  (same : D.operations = E.operations)

include worlds effects same

/-- What is granted of the copy is the renamed copy of what is granted. -/
theorem matches_grant {wish : Wish} (fits : wish.Fits E D.name) :
    Matches R (Renaming.swap E.name D.name).Fault (Renaming.swap E.name D.name).Copy
      (wish.grant e) (wish.grant d) := by
  have operation {o : String} {parameters : List Value} (holds : .str o ∈ E.operations)
      (asks : wish = .named o parameters ∧ o ∉ Namespace.ownNames ∧ o.startsWith "_" = false ∨
        wish = .item o parameters) :
      Matches R (Renaming.swap E.name D.name).Fault (Renaming.swap E.name D.name).Copy
        (wish.grant e) (wish.grant d) := by
    intro w w' hw
    rw [grant_operation (effects hw).1 holds asks,
      grant_operation (effects hw).2 (same ▸ holds) asks]
    refine ⟨.ok ?_, worlds.taken 2 (worlds.taken 1 hw)⟩
    rw [worlds.nextId hw, Renaming.Copy, Renaming.action, Renaming.rename_swap_left]
  cases wish with
  | named o parameters => exact operation fits.2.2 (Or.inl ⟨rfl, fits.1, fits.2.1⟩)
  | item o parameters => exact operation fits (Or.inr rfl)
  | other x => exact matches_pure (Renaming.action_swap fits).symm

theorem matches_given {c : Value → Exec (World L) (Wish ⊕ Value)}
    (source : ∀ v, Matches R (Renaming.swap E.name D.name).Fault
      (fun a b => a = b ∧ ∀ wish, a = .inl wish → wish.Fits E D.name) (c v) (c v)) (v : Value) :
    Matches R (Renaming.swap E.name D.name).Fault
      (Step.Mirrors (Renaming.swap E.name D.name).Copy) (given e c v) (given d c v) := by
  refine (source v).bind ?_
  rintro a _ ⟨rfl, fits⟩
  cases a with
  | inl wish =>
    exact (matches_grant worlds effects same (fits wish rfl)).bind fun _ _ copy =>
      matches_pure (.suspended copy)
  | inr result => exact matches_pure .completed

end

theorem Uses.runs {E D : Namespace} {e d : Nat} {R : World L → World L → Prop}
    {entries : Assoc Value} {bodies : Nat → Value → Exec (World L) (Wish ⊕ Value)}
    {call : Value → List Value → Exec (World L) Value} {c : Value → Exec (World L) (Wish ⊕ Value)}
    (uses : Uses E D e d R [(.str E.name, entries)] bodies call c)
    (same : D.operations = E.operations) :
    (Renaming.swap E.name D.name).RunsAs R (World.host (fun k => given e (bodies k)) call).quiet
      (World.host (fun k => given d (bodies k)) call).quiet [(.str E.name, entries)]
      [(.str D.name, entries)] (given e c) (given d c) := by
  have renames : (Renaming.swap E.name D.name).Renames R [(.str E.name, entries)]
      (fun k => given e (bodies k)) (fun k => given d (bodies k)) call call (given e c)
      (given d c) :=
    { worlds := uses.worlds
      source := matches_given uses.worlds uses.effects same uses.source
      bodies := fun k => matches_given uses.worlds uses.effects same (uses.bodies k)
      entries := uses.entries }
  rw [← Renaming.table_swap E.name D.name entries]
  exact renames.runs

/-- A program whose effects have other names runs under the renamed table as the program itself. So
it does with an effect that is derived from the one that it is given, under the same entries. The
table of one of the two never claims an action of the other. -/
theorem renamed_programs_run_alike (L : Language) :
    (∀ (r : Renaming) (R : World L → World L → Prop) (t : Table)
      (drive drive' : Nat → Value → Exec (World L) Step)
      (call call' : Value → List Value → Exec (World L) Value) (c c' : Source (World L)),
      r.Renames R t drive drive' call call' c c' →
      r.RunsAs R (World.host drive call).quiet (World.host drive' call').quiet t (r.table t) c c') ∧
    ∀ (w : World L) (e : Nat) (E : Namespace) (n : String), w.effects.get? e = some E → E.Arises →
      n ≠ "" → n ≠ E.name →
      ∃ d D w', derive (.str n) (.effect e) w = (.ok (.effect d), w') ∧
        w'.effects.get? e = some E ∧ w'.effects.get? d = some D ∧ D.name = n ∧
        (∀ (R : World L → World L → Prop) (entries : Assoc Value)
          (bodies : Nat → Value → Exec (World L) (Wish ⊕ Value))
          (call : Value → List Value → Exec (World L) Value)
          (c : Value → Exec (World L) (Wish ⊕ Value)),
          Uses E D e d R [(.str E.name, entries)] bodies call c →
          (Renaming.swap E.name n).RunsAs R (World.host (fun k => given e (bodies k)) call).quiet
            (World.host (fun k => given d (bodies k)) call).quiet [(.str E.name, entries)]
            [(.str n, entries)] (given e c) (given d c)) ∧
        ∀ (entries : Assoc Value) (i : Nat) (o : Value) (t : Nat) (parameters : List Value),
          Table.claim [(.str E.name, entries)] (.action i (.str n) o t parameters) = .unclaimed ∧
          Table.claim [(.str n, entries)] (.action i (.str E.name) o t parameters) =
            .unclaimed := by
  refine ⟨fun r R t drive drive' call call' c c' renames => renames.runs, ?_⟩
  intro w e E n known arises named other
  have coherent : Coherent (World.host (fun _ _ => Exec.exhausted) fun _ _ => Exec.exhausted) 0 e E
    w := coherent known arises
  obtain ⟨d, D, derives, -, there, -, rfl, same, -⟩ := coherent.derived n named
  have kept := coherent.adds_nothing (.derive D.name) (Or.inl rfl)
  refine ⟨d, D, (derive (.str D.name) (.effect e) w).2, Prod.ext derives rfl, kept, there, rfl,
    ?_, ?_⟩
  · intro R entries bodies call c uses
    exact uses.runs same
  · intro entries i o t parameters
    exact ⟨Renaming.unclaimed_of_ne other.symm entries i o t parameters,
      Renaming.unclaimed_of_ne other entries i o t parameters⟩

namespace Reading

def language : Language := ⟨Unit, Unit, Unit⟩

/-- A world with the effect `console`, which has the operation `read`. -/
def start : World language := (createEffect (.str "console") [.str "read"] { memory := () }).2

def console : Namespace := ⟨"console", [(.str "read", 0)], false⟩

theorem arises_console : console.Arises :=
  .made (.add (.start (show Namespace.start (.str "console") = .ok ⟨"console", [], false⟩ from rfl))
    (show Namespace.add ⟨"console", [], false⟩ 0 (.str "read") = .ok console from rfl))

/-- Reads once and completes with the answer. -/
def reader : Value → Exec (World language) (Wish ⊕ Value)
  | .nil => pure (.inl (.item "read" []))
  | v => pure (.inr v)

/-- The worlds of the reader: the two effects are there, and only the actions of tokens differ. -/
def Twin (D : Namespace) (d : Nat) (w w' : World language) : Prop :=
  Relabelled (.swap "console" D.name) w w' ∧ w.effects.get? 0 = some console ∧
    w.effects.get? d = some D

theorem uses_reader (D : Namespace) (d : Nat) :
    Uses console D 0 d (Twin D d) [(.str "console", [(.str "read", .function 0)])]
      (fun _ _ => pure (.inr .nil)) (fun _ _ => pure .nil) reader where
  worlds :=
    { nextId := fun h => (relabels_relabelled _).nextId h.1
      nextToken := fun h => (relabels_relabelled _).nextToken h.1
      decided := fun h => (relabels_relabelled _).decided h.1
      issued := fun h => ⟨(relabels_relabelled _).issued h.1, h.2⟩
      taken := fun count h => ⟨(relabels_relabelled _).taken count h.1, h.2⟩ }
  effects := by
    rintro w _ ⟨rfl, known⟩
    exact known
  source v := by
    cases v with
    | nil =>
      refine matches_pure ⟨rfl, fun wish h => ?_⟩
      obtain rfl := Sum.inl.inj h
      exact List.mem_singleton_self _
    | _ => exact matches_pure ⟨rfl, fun wish h => by cases h⟩
  bodies _ _ := matches_pure ⟨rfl, fun wish h => by cases h⟩
  entries _ _ _ := matches_pure rfl

/-- How a driver drives the reader under a handler that forgets to answer. -/
def driven (e : Nat) (name : String) (w : World language) :
    Result (List Sight) × (World language × List Host.Call) × Life Dispatch.Phase :=
  OneShot.session (handling (World.host (fun _ => given e fun _ => pure (.inr .nil))
      fun _ _ => pure .nil).quiet.recorded [(.str name, [(.str "read", .function 0)])]
    (given e reader).beside 1) [.nil] ((w, []), .fresh .start)

end Reading

open Reading in
/-- The handler is called once and forgets to answer. The two errors differ in the name. -/
theorem renamed_programs_run_alike_small :
    ∃ d w', derive (.str "terminal") (.effect 0) start = (.ok (.effect d), w') ∧
      (driven 0 "console" w').2.1.2 = [⟨.function 0, [.tactics 0]⟩] ∧
      (driven d "terminal" w').2.1.2 = [⟨.function 0, [.tactics 0]⟩] ∧
      Result.Matches (Renaming.swap "console" "terminal").Fault
        (List.Forall₂ (Sight.Mirrors (Renaming.swap "console" "terminal").Fault
          (Renaming.swap "console" "terminal").Copy))
        (driven 0 "console" w').1 (driven d "terminal" w').1 := by
  obtain ⟨d, D, w', derives, known, known', named, runs, -⟩ :=
    (renamed_programs_run_alike language).2 start 0 console "terminal" rfl arises_console
      (by decide) (by decide)
  obtain rfl : w' = (derive (.str "terminal") (.effect 0) start).2 :=
    (congrArg Prod.snd derives).symm
  have uses := uses_reader D d
  have alike := (runs (Twin D d) _ _ _ _ uses).driven 1 [.nil]
    ((_, []), .fresh .start) ((_, []), .fresh .start) ⟨⟨⟨?_, known, known'⟩, rfl⟩, .fresh .start⟩
  · obtain ⟨seen, ⟨-, calls⟩, -⟩ := alike
    refine ⟨d, _, derives, rfl, ?_, seen⟩
    exact calls.symm
  · exact relabelled_untouched _ rfl

end World

end OneShot
