import OneShot.Proofs.Loop
import OneShot.Tracing

/-!
# Runs that match

From related worlds two runs end in the same way, with related results or with related errors, and
leave related worlds. The dispatch loop and a tracer match over services and sources that do. What
is yielded can differ as far as the table of the loop does not tell the difference.
-/

namespace OneShot

/-- Two ends of the same sort. `E` relates the errors, `A` the results. -/
inductive Result.Matches {α β : Type} (E : Error → Error → Prop) (A : α → β → Prop) :
    Result α → Result β → Prop where
  | ok {a b} (h : A a b) : Matches E A (.ok a) (.ok b)
  | raised {e e'} (h : E e e') : Matches E A (.raised e) (.raised e')
  | exhausted : Matches E A .exhausted .exhausted

theorem Result.Matches.imp {α β : Type} {E : Error → Error → Prop} {A B : α → β → Prop}
    (results : ∀ {a b}, A a b → B a b) {r : Result α} {r' : Result β} (h : Matches E A r r') :
    Matches E B r r' := by
  cases h with
  | ok h => exact .ok (results h)
  | raised h => exact .raised h
  | exhausted => exact .exhausted

theorem Result.matches_eq {α : Type} {r r' : Result α} : Matches Eq Eq r r' ↔ r = r' := by
  constructor
  · rintro (⟨⟨⟩⟩ | ⟨⟨⟩⟩ | _) <;> rfl
  · rintro rfl
    cases r with
    | ok a => exact .ok rfl
    | raised e => exact .raised rfl
    | exhausted => exact .exhausted

theorem Result.Matches.symm {α : Type} {E : Error → Error → Prop} {A : α → α → Prop}
    (errors : ∀ {e e'}, E e e' → E e' e) (results : ∀ {a b}, A a b → A b a) {r r' : Result α}
    (h : Matches E A r r') : Matches E A r' r := by
  cases h with
  | ok h => exact .ok (results h)
  | raised h => exact .raised (errors h)
  | exhausted => exact .exhausted

namespace Exec

variable {V U α β γ δ : Type} {R : V → U → Prop} {E : Error → Error → Prop} {A : α → β → Prop}
  {B : γ → δ → Prop}

def Matches (R : V → U → Prop) (E : Error → Error → Prop) (A : α → β → Prop) (x : Exec V α)
    (y : Exec U β) : Prop :=
  ∀ p q, R p q → Result.Matches E A (x p).1 (y q).1 ∧ R (x p).2 (y q).2

theorem matches_pure {a : α} {b : β} (h : A a b) : Matches R E A (pure a) (pure b) :=
  fun _ _ hpq => ⟨.ok h, hpq⟩

theorem matches_raise {e e' : Error} (h : E e e') :
    Matches R E A (raise e : Exec V α) (raise e' : Exec U β) := fun _ _ hpq => ⟨.raised h, hpq⟩

theorem matches_exhausted : Matches R E A (exhausted : Exec V α) (exhausted : Exec U β) :=
  fun _ _ hpq => ⟨.exhausted, hpq⟩

theorem matches_modify {f : V → V} {g : U → U} (h : ∀ p q, R p q → R (f p) (g q)) :
    Matches R E Eq (modify f) (modify g) := fun p q hpq => ⟨.ok rfl, h p q hpq⟩

theorem matches_read {f : V → α} {g : U → β} (h : ∀ p q, R p q → A (f p) (g q)) :
    Matches R E A (read f) (read g) := fun p q hpq => ⟨.ok (h p q hpq), hpq⟩

theorem matches_alter {f : V → α × V} {g : U → β × U}
    (h : ∀ p q, R p q → A (f p).1 (g q).1 ∧ R (f p).2 (g q).2) :
    Matches R E A (alter f) (alter g) := fun p q hpq => ⟨.ok (h p q hpq).1, (h p q hpq).2⟩

theorem Matches.imp {A' : α → β → Prop} {x : Exec V α} {y : Exec U β}
    (results : ∀ {a b}, A a b → A' a b) (h : Matches R E A x y) : Matches R E A' x y :=
  fun p q hpq => ⟨(h p q hpq).1.imp results, (h p q hpq).2⟩

theorem Matches.bind {x : Exec V α} {y : Exec U β} {f : α → Exec V γ} {g : β → Exec U δ}
    (hx : Matches R E A x y) (hf : ∀ a b, A a b → Matches R E B (f a) (g b)) :
    Matches R E B (x >>= f) (y >>= g) := by
  intro p q h
  obtain ⟨hresult, hpq⟩ := hx p q h
  simp only [Bind.bind, Exec.bind]
  rcases hxp : x p with ⟨r, p'⟩
  rcases hyq : y q with ⟨r', q'⟩
  rw [hxp, hyq] at hresult hpq
  cases hresult with
  | ok h => exact hf _ _ h p' q' hpq
  | raised h => exact ⟨.raised h, hpq⟩
  | exhausted => exact ⟨.exhausted, hpq⟩

theorem Matches.next {x : Exec V α} {y : Exec U α} {f : α → Exec V γ} {g : α → Exec U δ}
    (hx : Matches R E Eq x y) (hf : ∀ a, Matches R E B (f a) (g a)) :
    Matches R E B (x >>= f) (y >>= g) :=
  hx.bind fun a _ h => h ▸ hf a

theorem Matches.attempt {x : Exec V α} {y : Exec U β} (hx : Matches R E A x y) :
    Matches R E (Result.Matches E A) x.attempt y.attempt := fun p q hpq =>
  ⟨.ok (hx p q hpq).1, (hx p q hpq).2⟩

theorem Matches.rescue {x : Exec V α} {y : Exec U β} {f : Error → Exec V α}
    {g : Error → Exec U β} (hx : Matches R E A x y)
    (hf : ∀ e e', E e e' → Matches R E A (f e) (g e')) :
    Matches R E A (x.rescue f) (y.rescue g) := by
  intro p q h
  obtain ⟨hresult, hpq⟩ := hx p q h
  simp only [Exec.rescue]
  rcases hxp : x p with ⟨r, p'⟩
  rcases hyq : y q with ⟨r', q'⟩
  rw [hxp, hyq] at hresult hpq
  cases hresult with
  | ok h => exact ⟨.ok h, hpq⟩
  | raised h => exact hf _ _ h p' q' hpq
  | exhausted => exact ⟨.exhausted, hpq⟩

end Exec

/-! ## What is yielded -/

section

variable {S T : Type} (N : Value → Value → Prop)

/-- The same step, but for what is yielded. -/
inductive Step.Mirrors : Step → Step → Prop where
  | suspended {x y : Value} (h : N x y) : Mirrors (.suspended x) (.suspended y)
  | completed {r : Value} : Mirrors (.completed r) (.completed r)

inductive Move.Mirrors (P : S → T → Prop) : Move S → Move T → Prop where
  | suspend {x y : Value} {s : S} {t : T} (h : N x y) (next : P s t) :
      Mirrors P (.suspend x s) (.suspend y t)
  | complete {r : Value} : Mirrors P (.complete r) (.complete r)

inductive Dispatch.Phase.Mirrors : Dispatch.Phase → Dispatch.Phase → Prop where
  | start : Mirrors .start .start
  | forwarding : Mirrors .forwarding .forwarding
  | handlerBody {n token : Nat} {x y : Value} (h : N x y) :
      Mirrors (.handlerBody n x token) (.handlerBody n y token)

inductive Dispatch.Decision.Mirrors : Dispatch.Decision → Dispatch.Decision → Prop where
  | proceed {v : Value} : Mirrors (.proceed v) (.proceed v)
  | stop {m m' : Move Dispatch.Phase} (h : Move.Mirrors N (Dispatch.Phase.Mirrors N) m m') :
      Mirrors (.stop m) (.stop m')

/-- The records of a loop. -/
inductive Note.Mirrors : Note → Note → Prop where
  | forwarding {x y : Value} (h : N x y) : Mirrors (.forwarding x) (.forwarding y)
  | resolved {x y : Value} (h : N x y) : Mirrors (.resolved x) (.resolved y)
  | driving {x y : Value} (h : N x y) : Mirrors (.driving x) (.driving y)
  | aborted {x y : Value} (h : N x y) : Mirrors (.aborted x) (.aborted y)
  | resumed {x y : Value} (h : N x y) : Mirrors (.resumed x) (.resumed y)

/-- The causes of the errors that a loop makes. -/
inductive Cause.Mirrors : Cause Value → Cause Value → Prop where
  | contract {x y reason : Value} (h : N x y) : Mirrors (.contract x reason) (.contract y reason)
  | unhandled {x y : Value} (h : N x y) : Mirrors (.unhandled x) (.unhandled y)
  | refused {refusal : Refusal} : Mirrors (.refused refusal) (.refused refusal)

end

inductive Life.Mirrors {S T : Type} (P : S → T → Prop) : Life S → Life T → Prop where
  | fresh {s : S} {t : T} (h : P s t) : Mirrors P (.fresh s) (.fresh t)
  | suspended {s : S} {t : T} (h : P s t) : Mirrors P (.suspended s) (.suspended t)
  | running {s : S} {t : T} (h : P s t) : Mirrors P (.running s) (.running t)
  | finished : Mirrors P .finished .finished

section

variable {S : Type}

theorem Step.mirrors_eq {s s' : Step} : Mirrors Eq s s' ↔ s = s' := by
  constructor
  · rintro (⟨⟨⟩⟩ | _) <;> rfl
  · rintro rfl
    cases s with
    | suspended x => exact .suspended rfl
    | completed r => exact .completed

theorem Move.mirrors_eq {m m' : Move S} : Mirrors Eq Eq m m' ↔ m = m' := by
  constructor
  · rintro (⟨⟨⟩, ⟨⟩⟩ | _) <;> rfl
  · rintro rfl
    cases m with
    | suspend x s => exact .suspend rfl rfl
    | complete r => exact .complete

theorem Life.mirrors_eq {l l' : Life S} : Mirrors Eq l l' ↔ l = l' := by
  constructor
  · rintro (⟨⟨⟩⟩ | ⟨⟨⟩⟩ | ⟨⟨⟩⟩ | _) <;> rfl
  · rintro rfl
    cases l with
    | fresh s => exact .fresh rfl
    | suspended s => exact .suspended rfl
    | running s => exact .running rfl
    | finished => exact .finished

theorem Dispatch.Phase.mirrors_eq {s s' : Phase} : Mirrors Eq s s' ↔ s = s' := by
  constructor
  · rintro (_ | _ | ⟨⟨⟩⟩) <;> rfl
  · rintro rfl
    cases s with
    | start => exact .start
    | forwarding => exact .forwarding
    | handlerBody => exact .handlerBody rfl

theorem Dispatch.phase_mirrors_eq : Phase.Mirrors Eq = Eq := by
  funext s s'
  exact propext Phase.mirrors_eq

theorem Dispatch.Decision.mirrors_eq {d d' : Decision} : Mirrors Eq d d' ↔ d = d' := by
  constructor
  · rintro (_ | ⟨h⟩)
    · rfl
    · rw [phase_mirrors_eq, Move.mirrors_eq] at h
      rw [h]
  · rintro rfl
    cases d with
    | proceed v => exact .proceed
    | stop m => exact .stop (by rw [phase_mirrors_eq, Move.mirrors_eq])

theorem Note.eq_of_mirrors {n n' : Note} (h : Mirrors Eq n n') : n = n' := by
  rcases h with ⟨⟨⟩⟩ | ⟨⟨⟩⟩ | ⟨⟨⟩⟩ | ⟨⟨⟩⟩ | ⟨⟨⟩⟩ <;> rfl

theorem Cause.eq_of_mirrors {c c' : Cause Value} (h : Mirrors Eq c c') : c = c' := by
  rcases h with ⟨⟨⟩⟩ | ⟨⟨⟩⟩ | _ <;> rfl

end

/-- Related steps, or related errors. -/
def Sight.Mirrors (E : Error → Error → Prop) (N : Value → Value → Prop) (s s' : Sight) : Prop :=
  Result.Matches E (Step.Mirrors N) (.of s) (.of s')

/-- The same step, or related errors. -/
def Sight.Matches (E : Error → Error → Prop) (s s' : Sight) : Prop :=
  Result.Matches E Eq (.of s) (.of s')

theorem Sight.matches_of_mirrors {E : Error → Error → Prop} {s s' : Sight}
    (h : Sight.Mirrors E Eq s s') : Sight.Matches E s s' :=
  Result.Matches.imp Step.mirrors_eq.mp h

theorem Sight.Matches.eq_ok {E : Error → Error → Prop} {s : Sight} {step : Step}
    (h : Sight.Matches E s (.ok step)) : s = .ok step := by
  cases s with
  | ok => cases h with
    | ok h => rw [h]
  | error => cases h

theorem Sight.Matches.symm {E : Error → Error → Prop} (symm : ∀ {e e'}, E e e' → E e' e)
    {s s' : Sight} (h : Sight.Matches E s s') : Sight.Matches E s' s :=
  Result.Matches.symm symm Eq.symm h

open Exec

variable {V U : Type} {R : V → U → Prop} {E : Error → Error → Prop} {N : Value → Value → Prop}
  {F : Value → Prop}

theorem Exec.Matches.sight {x : Exec V Step} {y : Exec U Step}
    (hx : Matches R E (Step.Mirrors N) x y) :
    Matches R E (Sight.Mirrors E N) x.look y.look := by
  refine (hx.bind fun step step' h => ?_).rescue fun e e' h => ?_
  · exact matches_pure (show Sight.Mirrors E N (.ok step) (.ok step') from .ok h)
  · exact matches_pure (show Sight.Mirrors E N (.error e) (.error e') from .raised h)

theorem Exec.Matches.look {x : Exec V Step} {y : Exec U Step} (hx : Matches R E Eq x y) :
    Matches R E (Sight.Matches E) x.look y.look :=
  (hx.imp Step.mirrors_eq.mpr).sight.imp Sight.matches_of_mirrors

/-- The services of two worlds match. What is yielded is related by `N`, and the functions that are
called are in `F`. -/
structure Host.Mirrors (R : V → U → Prop) (E : Error → Error → Prop) (N : Value → Value → Prop)
    (F : Value → Prop) (host : Host V) (host' : Host U) : Prop where
  drive : ∀ n v, Exec.Matches R E (Step.Mirrors N) (host.drive n v) (host'.drive n v)
  call : ∀ f arguments, F f →
    Exec.Matches R E Eq (host.call f arguments) (host'.call f arguments)
  issue : ∀ {x y}, N x y → Exec.Matches R E Eq (host.issue x) (host'.issue y)
  outcome : ∀ token, Exec.Matches R E Eq (host.outcome token) (host'.outcome token)
  note : ∀ {n n'}, Note.Mirrors N n n' → Exec.Matches R E Eq (host.note n) (host'.note n')
  mint : ∀ {c c'}, Cause.Mirrors N c c' → Exec.Matches R E E (host.mint c) (host'.mint c')

/-- The services of two worlds match. -/
structure Host.Matches (R : V → U → Prop) (E : Error → Error → Prop) (host : Host V)
    (host' : Host U) : Prop where
  drive : ∀ n v, Exec.Matches R E Eq (host.drive n v) (host'.drive n v)
  call : ∀ f arguments, Exec.Matches R E Eq (host.call f arguments) (host'.call f arguments)
  issue : ∀ action, Exec.Matches R E Eq (host.issue action) (host'.issue action)
  outcome : ∀ token, Exec.Matches R E Eq (host.outcome token) (host'.outcome token)
  note : ∀ n, Exec.Matches R E Eq (host.note n) (host'.note n)
  mint : ∀ cause, Exec.Matches R E E (host.mint cause) (host'.mint cause)

theorem Host.Matches.mirrors {host : Host V} {host' : Host U} (services : host.Matches R E host') :
    host.Mirrors R E Eq (fun _ => True) host' where
  drive n v := (services.drive n v).imp Step.mirrors_eq.mpr
  call f arguments _ := services.call f arguments
  issue h := h ▸ services.issue _
  outcome := services.outcome
  note h := Note.eq_of_mirrors h ▸ services.note _
  mint h := Cause.eq_of_mirrors h ▸ services.mint _

/-- Two tables say the same to related values, and call functions of `F` only. -/
structure Table.Mirrors (N : Value → Value → Prop) (F : Value → Prop) (t t' : Table) : Prop where
  claim : ∀ {x y}, N x y → t'.claim y = t.claim x
  parameters : ∀ {x y}, N x y → Dispatch.parametersOf y = Dispatch.parametersOf x
  entries : ∀ {x f}, t.claim x = .entry f → f.isCallable = true → F f

theorem Table.mirrors_self (t : Table) : Mirrors Eq (fun _ => True) t t where
  claim h := by rw [h]
  parameters h := by rw [h]
  entries _ _ := trivial

/-! ## Lives -/

/-- Two cells hold related lives in related worlds. -/
structure Cell.Mirrors {S T : Type} (R : V → U → Prop) (P : S → T → Prop) (cell : Cell V (Life S))
    (cell' : Cell U (Life T)) : Prop where
  get : ∀ p q, R p q → Life.Mirrors P (cell.get p) (cell'.get q)
  set : ∀ {l l'} p q, Life.Mirrors P l l' → R p q → R (cell.set l p) (cell'.set l' q)

/-- Two cells hold the same in related worlds. -/
structure Cell.Alike {X : Type} (R : V → U → Prop) (cell : Cell V X) (cell' : Cell U X) : Prop where
  get : ∀ p q, R p q → cell.get p = cell'.get q
  set : ∀ x p q, R p q → R (cell.set x p) (cell'.set x q)

theorem Cell.Alike.mirrors {S : Type} {cell : Cell V (Life S)} {cell' : Cell U (Life S)}
    (cells : Cell.Alike R cell cell') : Cell.Mirrors R Eq cell cell' where
  get p q h := Life.mirrors_eq.mpr (cells.get p q h)
  set p q l h := Life.mirrors_eq.mp l ▸ cells.set _ p q h

section

variable {S T : Type} {P : S → T → Prop} {mint : Cause Value → Exec V Error}
  {mint' : Cause Value → Exec U Error} {body : S → Value → Exec V (Move S)}
  {body' : T → Value → Exec U (Move T)} (kinds : ∀ {e e'}, E e e' → e.kind = e'.kind)
  (mints : ∀ refusal, Exec.Matches R E E (mint (.refused refusal)) (mint' (.refused refusal)))
  (bodies : ∀ {s t} v, P s t → Exec.Matches R E (Move.Mirrors N P) (body s v) (body' t v))
  {cell : Cell V (Life S)} {cell' : Cell U (Life T)} (cells : Cell.Mirrors R P cell cell')

include kinds mints bodies cells

theorem Life.mirrors_enter {s : S} {t : T} (states : P s t) (v : Value) :
    Exec.Matches R E (Step.Mirrors N) (enter mint cell body s v) (enter mint' cell' body' t v) := by
  refine (matches_modify fun p q => cells.set p q (.running states)).next fun _ => ?_
  refine (bodies v states).attempt.bind fun ended ended' h => ?_
  have lives : Life.Mirrors P (after ended) (after ended') := by
    rcases h with ⟨_ | _⟩ | _ | _
    · exact .suspended ‹_›
    all_goals exact .finished
  refine (matches_modify fun p q => cells.set p q lives).next fun _ => ?_
  cases h with
  | ok h =>
    refine matches_pure ?_
    cases h with
    | suspend h => exact .suspended h
    | complete => exact .completed
  | exhausted => exact matches_exhausted
  | @raised e e' h =>
    by_cases stop : e.kind = .stopIteration
    · simp only [if_pos stop, if_pos (kinds h ▸ stop)]
      exact (mints _).bind fun _ _ => matches_raise
    · simp only [if_neg stop, if_neg (kinds h ▸ stop)]
      exact matches_raise h

theorem Life.mirrors_drive (v : Value) :
    Exec.Matches R E (Step.Mirrors N) (drive mint cell body v) (drive mint' cell' body' v) := by
  refine (matches_read cells.get).bind fun life life' h => ?_
  cases h with
  | fresh h => exact mirrors_enter kinds mints bodies cells h .nil
  | suspended h => exact mirrors_enter kinds mints bodies cells h v
  | running h => exact (mints _).bind fun _ _ => matches_raise
  | finished => exact matches_pure .completed

end

theorem Life.matches_drive {S : Type} {mint : Cause Value → Exec V Error}
    {mint' : Cause Value → Exec U Error} {body : S → Value → Exec V (Move S)}
    {body' : S → Value → Exec U (Move S)} (kinds : ∀ {e e'}, E e e' → e.kind = e'.kind)
    (mints : ∀ cause, Exec.Matches R E E (mint cause) (mint' cause))
    (bodies : ∀ s v, Exec.Matches R E Eq (body s v) (body' s v)) {cell : Cell V (Life S)}
    {cell' : Cell U (Life S)} (cells : Cell.Alike R cell cell') (v : Value) :
    Exec.Matches R E Eq (drive mint cell body v) (drive mint' cell' body' v) := by
  refine (mirrors_drive (N := Eq) kinds (fun refusal => mints _) ?_ cells.mirrors v).imp
    Step.mirrors_eq.mp
  rintro s _ v rfl
  exact (bodies s v).imp Move.mirrors_eq.mpr

/-! ## The dispatch loop and the tracer -/

namespace Dispatch

section

variable {host : Host V} {host' : Host U} (services : host.Mirrors R E N F host')

include services

theorem mirrors_fail {α : Type} {A : α → α → Prop} {c c' : Cause Value} (h : Cause.Mirrors N c c') :
    Exec.Matches R E A (host.fail c : Exec V α) (host'.fail c') :=
  (services.mint h).bind fun _ _ => matches_raise

theorem mirrors_conclude {x y : Value} (h : N x y) (token : Nat) :
    Exec.Matches R E (Decision.Mirrors N) (conclude host x token) (conclude host' y token) := by
  refine (services.outcome token).next fun o => ?_
  rcases o with _ | ⟨v | v⟩
  · exact mirrors_fail services (.contract h)
  · exact (services.note (.resumed h)).next fun _ => matches_pure .proceed
  · exact (services.note (.aborted h)).next fun _ => matches_pure (.stop .complete)

theorem mirrors_runBody (n : Nat) {x y : Value} (h : N x y) (token : Nat) (v : Value) :
    Exec.Matches R E (Decision.Mirrors N) (runBody host n x token v)
      (runBody host' n y token v) := by
  refine (services.drive n v).bind fun step step' steps => ?_
  cases steps with
  | suspended yields => exact matches_pure (.stop (.suspend yields (.handlerBody h)))
  | completed => exact mirrors_conclude services h token

theorem mirrors_callHandler {handler : Value} (known : F handler) {x y : Value} (h : N x y)
    (parameters : List Value) :
    Exec.Matches R E (Decision.Mirrors N) (callHandler host handler x parameters)
      (callHandler host' handler y parameters) := by
  refine (services.issue h).next fun token => (services.call _ _ known).next fun returned => ?_
  cases returned.computation? with
  | none => exact mirrors_conclude services h token
  | some n =>
    exact (services.note (.driving h)).next fun _ => mirrors_runBody services n h token .nil

theorem mirrors_takeUp {phase phase' : Phase} (h : Phase.Mirrors N phase phase') (v : Value) :
    Exec.Matches R E (Decision.Mirrors N) (takeUp host phase v) (takeUp host' phase' v) := by
  cases h with
  | start => exact matches_pure .proceed
  | forwarding => exact matches_pure .proceed
  | handlerBody h => exact mirrors_runBody services _ h _ v

variable {t t' : Table} (tables : t.Mirrors N F t')

include tables

theorem mirrors_resolve {x y : Value} (h : N x y) :
    Exec.Matches R E (Decision.Mirrors N) (resolve host t x) (resolve host' t' y) := by
  unfold resolve
  rw [tables.claim h]
  cases claimed : t.claim x with
  | notKey name => exact mirrors_fail services .refused
  | unclaimed =>
    exact (services.note (.forwarding h)).next fun _ =>
      matches_pure (.stop (.suspend h .forwarding))
  | entry entry =>
    by_cases callable : entry.isCallable
    · simp only [if_pos callable, tables.parameters h]
      exact mirrors_callHandler services (tables.entries claimed callable) h _
    · simp only [if_neg callable]
      exact (services.note (.resolved h)).next fun _ => matches_pure .proceed

theorem mirrors_react {step step' : Step} (h : Step.Mirrors N step step') :
    Exec.Matches R E (Decision.Mirrors N) (react host t step) (react host' t' step') := by
  cases h with
  | suspended h => exact mirrors_resolve services tables h
  | completed => exact matches_pure (.stop .complete)

variable {source : Source V} {source' : Source U}
  (sources : ∀ v, Exec.Matches R E (Step.Mirrors N) (source v) (source' v))

include sources

theorem mirrors_proceed (bound : Nat) {d d' : Decision} (h : Decision.Mirrors N d d') :
    Exec.Matches R E (Move.Mirrors N (Phase.Mirrors N)) (proceed host t source bound d)
      (proceed host' t' source' bound d') := by
  induction bound generalizing d d' with
  | zero =>
    cases h with
    | stop h =>
      simp only [proceed]
      exact matches_pure h
    | proceed =>
      simp only [proceed]
      exact matches_exhausted
  | succ bound ih =>
    cases h with
    | stop h =>
      simp only [proceed]
      exact matches_pure h
    | proceed =>
      simp only [proceed]
      refine (sources _).bind fun step step' steps => ?_
      exact (mirrors_react services tables steps).bind fun _ _ => ih

theorem mirrors_advance (bound : Nat) {phase phase' : Phase} (h : Phase.Mirrors N phase phase')
    (v : Value) :
    Exec.Matches R E (Move.Mirrors N (Phase.Mirrors N)) (advance host t source bound phase v)
      (advance host' t' source' bound phase' v) :=
  (mirrors_takeUp services h v).bind fun _ _ => mirrors_proceed services tables sources bound

end

variable {host : Host V} {host' : Host U} (services : host.Matches R E host')

include services

theorem matches_fail {α : Type} (cause : Cause Value) :
    Exec.Matches R E Eq (host.fail cause : Exec V α) (host'.fail cause) :=
  (services.mint cause).bind fun _ _ => matches_raise

theorem matches_react (table : Table) (step : Step) :
    Exec.Matches R E Eq (react host table step) (react host' table step) :=
  (mirrors_react services.mirrors table.mirrors_self (Step.mirrors_eq.mpr rfl)).imp
    Decision.mirrors_eq.mp

theorem matches_takeUp (phase : Phase) (v : Value) :
    Exec.Matches R E Eq (takeUp host phase v) (takeUp host' phase v) :=
  (mirrors_takeUp services.mirrors (Phase.mirrors_eq.mpr rfl) v).imp Decision.mirrors_eq.mp

theorem matches_advance {source : Source V} {source' : Source U}
    (sources : ∀ v, Exec.Matches R E Eq (source v) (source' v)) (table : Table) (bound : Nat)
    (phase : Phase) (v : Value) :
    Exec.Matches R E Eq (advance host table source bound phase v)
      (advance host' table source' bound phase v) := by
  have mirrors := mirrors_advance services.mirrors table.mirrors_self
    (fun v => (sources v).imp Step.mirrors_eq.mpr) bound (Phase.mirrors_eq.mpr (Eq.refl phase)) v
  rw [phase_mirrors_eq] at mirrors
  exact mirrors.imp Move.mirrors_eq.mp

end Dispatch

namespace Tracing

variable {host : Host V} {host' : Host U} (services : host.Matches R E host')

include services

theorem matches_checkLimit (limit : Value) (step : Nat) :
    Exec.Matches R E Eq (checkLimit host limit step) (checkLimit host' limit step) := by
  unfold checkLimit
  split
  · exact matches_pure rfl
  · split
    · split
      · exact Dispatch.matches_fail services _
      · exact matches_pure rfl
    · exact Dispatch.matches_fail services _

theorem matches_pass (label limit : Value) (steps : Nat) (step : Step) :
    Exec.Matches R E Eq (pass host label limit steps step)
      (pass host' label limit steps step) := by
  cases step with
  | suspended x =>
    refine (matches_checkLimit services limit _).next fun _ => ?_
    exact (services.note _).next fun _ => matches_pure rfl
  | completed r => exact (services.note _).next fun _ => matches_pure rfl

theorem matches_advance {source : Source V} {source' : Source U}
    (sources : ∀ v, Exec.Matches R E Eq (source v) (source' v)) (label limit : Value)
    (phase : Phase) (v : Value) :
    Exec.Matches R E Eq (advance host label limit source phase v)
      (advance host' label limit source' phase v) := by
  cases phase with
  | start => exact (sources .nil).next (matches_pass services label limit 0)
  | waiting steps =>
    exact (services.note _).next fun _ => (sources v).next (matches_pass services label limit steps)

end Tracing

end OneShot
