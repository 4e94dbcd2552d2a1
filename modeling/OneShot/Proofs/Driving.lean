import OneShot.Proofs.Beside

/-!
# Driving a computation

A driver sends one value after the other and sees how each drive ends. The life of a computation
stands beside the world, so nothing that runs in the world can drive it.
-/

namespace OneShot

/-- A computation in a world: each drive with a value is one step. -/
abbrev Source (W : Type) := Value → Exec W Step

abbrev Sight := Except Error Step

variable {W V S : Type}

def Source.beside {X : Type} (c : Source W) : Source (W × X) := fun v => (c v).beside

/-- A computation that yields an action without parameters and completes with its answer. -/
def Source.asking (effect operation : String) : Source W
  | .nil => pure (.suspended (.action 0 (.str effect) (.str operation) 0 []))
  | v => pure (.completed v)

/-! ## Bodies and their lives -/

def Cell.second {X : Type} : Cell (W × X) X where
  get := Prod.snd
  set x p := (p.1, x)

/-- The computation that runs a body. Its life stands beside the world. -/
def Source.ofBody (mint : Cause Value → Exec W Error) (body : S → Value → Exec W (Move S)) :
    Source (W × Life S) :=
  Life.drive (fun cause => (mint cause).beside) Cell.second (fun s v => (body s v).beside)

/-- What a drive gives when the body has ended. An end of iteration becomes another error. -/
def Life.seal (mint : Cause Value → Exec W Error) : Except Error (Move S) → Exec W Step
  | .ok move => pure move.step
  | .error e =>
    if e.kind = .stopIteration then do Exec.raise (← mint (.refused .endOfIteration))
    else Exec.raise e

def Life.left (o : Except Error (Move S)) : Life S := Life.after (.of o)

theorem Life.seal_plain {e : Error} (kind : e.kind ≠ .stopIteration)
    (mint : Cause Value → Exec W Error) (w : W) :
    Life.seal mint (.error e : Except Error (Move S)) w = (.raised e, w) := by
  simp only [Life.seal, if_neg kind]
  rfl

theorem Life.seal_error {host : Host W} (mints : host.Mints) (e : Error) (w : W) :
    ∃ e' w', Life.seal host.mint (.error e : Except Error (Move S)) w = (.raised e', w') ∧
      e'.kind ≠ .stopIteration ∧
      ((e.kind ≠ .stopIteration ∧ e' = e ∧ w' = w) ∨
        (e.kind = .stopIteration ∧ e'.cause = .refused .endOfIteration)) := by
  by_cases h : e.kind = .stopIteration
  · obtain ⟨e', w', hmint, hcause⟩ := mints (.refused .endOfIteration) w
    refine ⟨e', w', ?_, ?_, Or.inr ⟨h, hcause⟩⟩
    · simp only [Life.seal, if_pos h]
      rw [Exec.bind_ok hmint]
      rfl
    · simp [ErrorOf.kind, hcause, Cause.kind, Refusal.kind]
  · exact ⟨e, w, seal_plain h host.mint w, h, Or.inl ⟨h, rfl, rfl⟩⟩

theorem Life.error_of_seal {host : Host W} (mints : host.Mints) {e : Error} {w w' : W}
    {sight : Sight}
    (h : Life.seal host.mint (.error e : Except Error (Move S)) w = (.of sight, w')) :
    ∃ e', sight = .error e' := by
  obtain ⟨e', w₁, hseal, -⟩ := Life.seal_error (S := S) mints e w
  rw [hseal] at h
  have hsight : Result.of (.error e') = Result.of sight := congrArg Prod.fst h
  exact ⟨e', (Result.of_inj.mp hsight).symm⟩

theorem Life.seal_again {host : Host W} (mints : host.Mints) {T : Type} {e e' : Error} {w w' : W}
    (h : Life.seal host.mint (.error e : Except Error (Move S)) w = (.raised e', w'))
    (sight : Sight) (w₁ : W) :
    Life.seal host.mint (.error e : Except Error (Move S)) w = (.of sight, w₁) ↔
      Life.seal host.mint (.error e' : Except Error (Move T)) w' = (.of sight, w₁) := by
  obtain ⟨e₁, w₂, hseal, hkind, -⟩ := Life.seal_error (S := S) mints e w
  rw [hseal] at h
  obtain ⟨⟨⟩, rfl⟩ := Prod.mk.inj h
  rw [hseal, seal_plain hkind]

theorem enter_apply (mint : Cause Value → Exec W Error) (body : S → Value → Exec W (Move S)) (s : S)
    (v : Value) (w : W) (l : Life S) :
    Life.enter (fun cause => (mint cause).beside) Cell.second (fun s v => (body s v).beside) s v
      (w, l) =
    (match (body s v w).1 with
      | .ok m => Life.seal mint (.ok m)
      | .raised e => Life.seal mint (.error e : Except Error (Move S))
      | .exhausted => Exec.exhausted).beside ((body s v w).2, Life.after (body s v w).1) := by
  simp only [Life.enter, Bind.bind, Exec.bind, Exec.modify, Exec.attempt, Exec.beside_apply,
    Cell.second]
  rcases body s v w with ⟨r, w₁⟩
  cases r with
  | ok m => rfl
  | exhausted => rfl
  | raised e =>
    simp only [Life.seal]
    split
    · exact congrFun (Exec.beside_bind (mint (.refused .endOfIteration)) Exec.raise).symm _
    · rfl

theorem enter_eq (mint : Cause Value → Exec W Error) (body : S → Value → Exec W (Move S)) {s : S}
    {v : Value} {w w' : W} {l l' : Life S} {sight : Sight} :
    Life.enter (fun cause => (mint cause).beside) Cell.second (fun s v => (body s v).beside) s v
      (w, l) = (.of sight, (w', l')) ↔
    ∃ o w₁, body s v w = (.of o, w₁) ∧ Life.seal mint o w₁ = (.of sight, w') ∧
      l' = Life.left o := by
  rw [enter_apply]
  rcases body s v w with ⟨r, w₁⟩
  constructor
  · intro h
    obtain ⟨hseal, rfl⟩ := Exec.beside_eq.mp h
    cases r with
    | ok m => exact ⟨.ok m, w₁, rfl, hseal, rfl⟩
    | raised e => exact ⟨.error e, w₁, rfl, hseal, rfl⟩
    | exhausted => exact absurd (congrArg Prod.fst hseal).symm (Result.of_ne_exhausted sight)
  · rintro ⟨o, _, hrun, hseal, rfl⟩
    obtain ⟨rfl, rfl⟩ := Prod.mk.inj hrun
    cases o <;> exact Exec.beside_eq.mpr ⟨hseal, rfl⟩

/-- The state and the value with which a drive enters the body. The first drive takes no value. -/
def Life.enters? : Life S → Value → Option (S × Value)
  | .fresh s, _ => some (s, .nil)
  | .suspended s, v => some (s, v)
  | _, _ => none

theorem Life.enters?_fresh (s : S) (v : Value) : (Life.fresh s).enters? v = some (s, .nil) := rfl

theorem Life.enters?_suspended (s : S) (v : Value) :
    (Life.suspended s).enters? v = some (s, v) := rfl

theorem Life.enters_or (l : Life S) (v : Value) :
    (∃ s u, l.enters? v = some (s, u)) ∨ (∃ s, l = .running s) ∨ l = .finished := by
  cases l with
  | fresh s => exact .inl ⟨s, .nil, rfl⟩
  | suspended s => exact .inl ⟨s, v, rfl⟩
  | running s => exact .inr (.inl ⟨s, rfl⟩)
  | finished => exact .inr (.inr rfl)

theorem Life.body?_of_entry {l : Life S} {s : S} {v u : Value}
    (entry : l.enters? v = some (s, u)) : l.body? = some s := by
  cases l <;> cases entry <;> rfl

theorem Life.going_of_entry {l : Life S} {v : Value} {entered : S × Value}
    (entry : l.enters? v = some entered) : l ≠ .finished := by
  rintro rfl
  cases entry

section

variable {mint : Cause Value → Exec W Error} {cell : Cell W (Life S)}
  {body : S → Value → Exec W (Move S)} {v : Value} {w : W} {s : S}

theorem Life.drive_entered {u : Value} (entry : (cell.get w).enters? v = some (s, u)) :
    drive mint cell body v w = enter mint cell body s u w := by
  rw [drive, Exec.bind_ok (rfl : Exec.read cell.get w = _)]
  cases life : cell.get w with
  | fresh s' =>
    rw [life] at entry
    cases entry
    rfl
  | suspended s' =>
    rw [life] at entry
    cases entry
    rfl
  | running s' =>
    rw [life] at entry
    cases entry
  | finished =>
    rw [life] at entry
    cases entry

theorem Life.drive_running (life : cell.get w = .running s) :
    drive mint cell body v w = (do Exec.raise (← mint (.refused .running)) : Exec W Step) w := by
  rw [drive, Exec.bind_ok (rfl : Exec.read cell.get w = _), life]

theorem Life.drive_finished (life : cell.get w = .finished) :
    drive mint cell body v w = (.ok (.completed .nil), w) := by
  rw [drive, Exec.bind_ok (rfl : Exec.read cell.get w = _), life]
  rfl

theorem Life.enter_ended (mint : Cause Value → Exec W Error) {o : Except Error (Move S)} {w₁ : W}
    (h : body s v (cell.set (.running s) w) = (.of o, w₁)) :
    enter mint cell body s v w = Life.seal mint o (cell.set (Life.left o) w₁) := by
  simp only [enter, Bind.bind, Exec.bind, Exec.modify, Exec.attempt, h]
  cases o <;> rfl

theorem Life.enter_exhausted (mint : Cause Value → Exec W Error) {w₁ : W}
    (h : body s v (cell.set (.running s) w) = (.exhausted, w₁)) :
    enter mint cell body s v w = (.exhausted, cell.set .finished w₁) := by
  simp only [enter, Bind.bind, Exec.bind, Exec.modify, Exec.attempt, h]
  rfl

end

section

variable {mint : Cause Value → Exec W Error} {cell : Cell W (Life S)} {v : Value} {w w' : W}
  {sight : Sight}

theorem Life.entered_eq {body : S → Value → Exec W (Move S)} {s : S} {u : Value}
    (entry : (cell.get w).enters? v = some (s, u)) :
    drive mint cell body v w = (.of sight, w') ↔
      ∃ o w₁, body s u (cell.set (.running s) w) = (.of o, w₁) ∧
        Life.seal mint o (cell.set (Life.left o) w₁) = (.of sight, w') := by
  rw [drive_entered entry]
  constructor
  · intro h
    rcases run : body s u (cell.set (.running s) w) with ⟨r, w₁⟩
    rcases r.exhausted_or_of with rfl | ⟨o, rfl⟩
    · rw [enter_exhausted mint run] at h
      exact absurd (congrArg Prod.fst h).symm (Result.of_ne_exhausted sight)
    · rw [enter_ended mint run] at h
      exact ⟨o, w₁, rfl, h⟩
  · rintro ⟨o, w₁, run, sealed⟩
    rw [enter_ended mint run, sealed]

variable {body : Nat → S → Value → Exec W (Move S)}

theorem Life.ends_entered {s : S} {u : Value} (entry : (cell.get w).enters? v = some (s, u)) :
    Exec.Ends (fun b => drive mint cell (body b) v) w sight w' ↔
      ∃ o w₁, Exec.Ends (body · s u) (cell.set (.running s) w) o w₁ ∧
        Life.seal mint o (cell.set (Life.left o) w₁) = (.of sight, w') := by
  simp only [Exec.Ends, entered_eq entry]
  constructor
  · rintro ⟨b, o, w₁, run, sealed⟩
    exact ⟨o, w₁, ⟨b, run⟩, sealed⟩
  · rintro ⟨o, w₁, ⟨b, run⟩, sealed⟩
    exact ⟨b, o, w₁, run, sealed⟩

theorem Life.growing_drive (growing : ∀ s v, Exec.Growing (body · s v)) (v : Value) :
    Exec.Growing fun b => drive mint cell (body b) v := by
  intro b b' w sight w' hb h
  obtain ⟨s, u, entry⟩ | ⟨s, life⟩ | life := enters_or (cell.get w) v
  · obtain ⟨o, w₁, run, sealed⟩ := (entered_eq entry).mp h
    exact (entered_eq entry).mpr ⟨o, w₁, growing _ _ hb run, sealed⟩
  · exact (drive_running life).trans ((drive_running life).symm.trans h)
  · exact (drive_finished life).trans ((drive_finished life).symm.trans h)

end

/-- How a drive ends, given how the body ends. -/
inductive Drives (mint : Cause Value → Exec W Error)
    (body : S → Value → W → Except Error (Move S) → W → Prop) :
    Life S → Value → W → Sight → Life S → W → Prop where
  | entered {l v s u w o w₁ sight w'} (entry : l.enters? v = some (s, u)) (run : body s u w o w₁)
      (sealed : Life.seal mint o w₁ = (.of sight, w')) :
      Drives mint body l v w sight (Life.left o) w'
  | running {s v w sight w'}
      (refused : (do Exec.raise (← mint (.refused .running)) : Exec W Step) w = (.of sight, w')) :
      Drives mint body (.running s) v w sight (.running s) w'
  | finished {v w} : Drives mint body .finished v w (.ok (.completed .nil)) .finished w

namespace Drives

variable {mint : Cause Value → Exec W Error}

theorem imp {p q : S → Value → W → Except Error (Move S) → W → Prop}
    (hpq : ∀ s v w o w', p s v w o w' → q s v w o w') {l l' : Life S} {v : Value} {w w' : W}
    {sight : Sight} (h : Drives mint p l v w sight l' w') : Drives mint q l v w sight l' w' := by
  cases h with
  | entered entry run sealed => exact .entered entry (hpq _ _ _ _ _ run) sealed
  | running refused => exact .running refused
  | finished => exact .finished

variable {body : S → Value → W → Except Error (Move S) → W → Prop} {l l' : Life S} {v : Value}
  {w w' : W} {sight : Sight}

theorem entered_iff {s : S} {u : Value} (entry : l.enters? v = some (s, u)) :
    Drives mint body l v w sight l' w' ↔
      ∃ o w₁, body s u w o w₁ ∧ Life.seal mint o w₁ = (.of sight, w') ∧ l' = Life.left o := by
  constructor
  · rintro (⟨entry', run, sealed⟩ | _ | _)
    · obtain ⟨rfl, rfl⟩ : _ = s ∧ _ = u := by simpa [entry] using entry'.symm
      exact ⟨_, _, run, sealed, rfl⟩
    · cases entry
    · cases entry
  · rintro ⟨o, w₁, run, sealed, rfl⟩
    exact .entered entry run sealed

theorem finished_iff :
    Drives mint body .finished v w sight l' w' ↔
      sight = .ok (.completed .nil) ∧ l' = .finished ∧ w' = w := by
  constructor
  · rintro (⟨entry, _⟩ | _ | _)
    · cases entry
    · exact ⟨rfl, rfl, rfl⟩
  · rintro ⟨rfl, rfl, rfl⟩
    exact .finished

end Drives

namespace Source

variable {mint : Cause Value → Exec W Error}

theorem ofBody_entered {body : S → Value → Exec W (Move S)} {l : Life S} {v u : Value} {s : S}
    (entry : l.enters? v = some (s, u)) (w : W) :
    ofBody mint body v (w, l) =
      Life.enter (fun cause => (mint cause).beside) Cell.second (fun s v => (body s v).beside) s u
        (w, l) :=
  Life.drive_entered entry

theorem ofBody_eq {body : S → Value → Exec W (Move S)} {v : Value} {w w' : W} {l l' : Life S}
    {sight : Sight} :
    ofBody mint body v (w, l) = (.of sight, (w', l')) ↔
      Drives mint (fun s v w o w' => body s v w = (.of o, w')) l v w sight l' w' := by
  obtain ⟨s, u, entry⟩ | ⟨s, rfl⟩ | rfl := l.enters_or v
  · rw [Drives.entered_iff entry, ← enter_eq (l := l), ofBody_entered entry]
  · have refused := Exec.beside_bind (X := Life S) (mint (.refused .running))
      (Exec.raise : Error → Exec W Step)
    constructor
    · intro h
      obtain ⟨raised, rfl⟩ := Exec.beside_eq.mp ((congrFun refused (w, .running s)).trans h)
      exact .running raised
    · rintro (⟨entry, _⟩ | h)
      · cases entry
      · exact (congrFun refused (w, .running s)).symm.trans (Exec.beside_eq.mpr ⟨h, rfl⟩)
  · rw [Drives.finished_iff]
    constructor
    · intro h
      obtain ⟨rfl, hleft⟩ := Exec.pure_eq_of.mp h
      obtain ⟨rfl, rfl⟩ := Prod.mk.inj hleft
      exact ⟨rfl, rfl, rfl⟩
    · rintro ⟨rfl, rfl, rfl⟩
      rfl

theorem ends_ofBody {body : Nat → S → Value → Exec W (Move S)} {v : Value} {w w' : W}
    {l l' : Life S} {sight : Sight} :
    Exec.Ends (fun b => ofBody mint (body b) v) (w, l) sight (w', l') ↔
      Drives mint (fun s v => Exec.Ends (body · s v)) l v w sight l' w' := by
  simp only [Exec.Ends, ofBody_eq]
  constructor
  · rintro ⟨b, h⟩
    exact h.imp fun _ _ _ _ _ run => ⟨b, run⟩
  · rintro (⟨entry, ⟨b, run⟩, sealed⟩ | refused | _)
    · exact ⟨b, .entered entry run sealed⟩
    · exact ⟨0, .running refused⟩
    · exact ⟨0, .finished⟩

theorem growing_ofBody {body : Nat → S → Value → Exec W (Move S)}
    (hbody : ∀ s v, Exec.Growing (body · s v)) (v : Value) :
    Exec.Growing fun b => ofBody mint (body b) v := by
  rintro b b' ⟨w, l⟩ sight ⟨w', l'⟩ hb h
  rw [ofBody_eq] at h ⊢
  exact h.imp fun s v _ _ _ run => hbody s v hb run

end Source

/-! ## Drivers -/

/-- Makes the way in which a drive ends something to be seen. -/
def Exec.look (x : Exec V Step) : Exec V Sight :=
  Exec.rescue (do return .ok (← x)) fun e => pure (.error e)

theorem Exec.look_eq {x : Exec V Step} {w w' : V} {o : Except Error Sight} :
    x.look w = (.of o, w') ↔ ∃ sight, o = .ok sight ∧ x w = (.of sight, w') := by
  simp only [look, rescue, Bind.bind, Exec.bind]
  rcases x w with ⟨r, w₁⟩
  rcases o with e | sight
  · cases r <;> simp [Exec.pure_apply]
  · rcases sight with e | step
    all_goals cases r <;> simp [Exec.pure_apply]

theorem Exec.Growing.look {x : Nat → Exec V Step} (hx : Growing x) :
    Growing fun b => (x b).look := by
  intro b b' w o w' hb h
  rw [look_eq] at h ⊢
  obtain ⟨sight, rfl, h⟩ := h
  exact ⟨sight, rfl, hx hb h⟩

theorem Exec.ends_look {x : Nat → Exec V Step} {w w' : V} {o : Except Error Sight} :
    Ends (fun b => (x b).look) w o w' ↔ ∃ sight, o = .ok sight ∧ Ends x w sight w' := by
  simp only [Ends, look_eq]
  constructor
  · rintro ⟨b, sight, rfl, h⟩
    exact ⟨sight, rfl, b, h⟩
  · rintro ⟨sight, rfl, b, h⟩
    exact ⟨b, sight, rfl, h⟩

/-- Drives a computation with one value after the other, also after it has ended. -/
def session (source : Source V) : List Value → Exec V (List Sight)
  | [] => pure []
  | v :: driver => do
    let sight ← (source v).look
    return sight :: (← session source driver)

/-- A driver that goes through its values in a world sees this, and leaves what is viewed so. -/
def Source.Shows {X : Type} (source : Nat → Source V) (view : V → X) (driver : List Value)
    (start : V) (seen : List Sight) (left : X) : Prop :=
  ∃ w, Exec.Ends (fun b => session (source b) driver) start (.ok seen) w ∧ view w = left

/-- Each drive of the driver has the property, with the worlds before and after it. -/
def Source.Throughout (source : Nat → Source V) (P : V → Sight → V → Prop) : List Value → V → Prop
  | [], _ => True
  | v :: driver, w => ∀ sight w', Exec.Ends (source · v) w sight w' →
    P w sight w' ∧ Throughout source P driver w'

namespace Source

variable {U X : Type}

inductive Shown (source : Nat → Source V) : List Value → V → List Sight → V → Prop where
  | nil {w} : Shown source [] w [] w
  | cons {v driver w sight w₁ seen w₂} (drive : Exec.Ends (source · v) w sight w₁)
      (rest : Shown source driver w₁ seen w₂) : Shown source (v :: driver) w (sight :: seen) w₂

theorem growing_session {source : Nat → Source V} (growing : ∀ v, Exec.Growing (source · v))
    (driver : List Value) : Exec.Growing fun b => session (source b) driver := by
  induction driver with
  | nil => exact Exec.growing_const _
  | cons v driver ih =>
    exact (growing v).look.bind fun sight => ih.bind fun seen => Exec.growing_const _

theorem ends_session {source : Nat → Source V} (growing : ∀ v, Exec.Growing (source · v))
    {driver : List Value} {w w' : V} {seen : List Sight} :
    Exec.Ends (fun b => session (source b) driver) w (.ok seen) w' ↔
      Shown source driver w seen w' := by
  induction driver generalizing w seen with
  | nil =>
    rw [show (fun b => session (source b) []) = fun _ => pure [] from rfl, Exec.ends_const]
    constructor
    · intro h
      obtain ⟨⟩ := h
      exact .nil
    · rintro ⟨⟩
      rfl
  | cons v driver ih =>
    have rest (sight : Sight) : Exec.Growing fun b => do
        return sight :: (← session (source b) driver) :=
      (growing_session growing driver).bind fun _ => Exec.growing_const _
    simp only [session]
    rw [Exec.ends_bind (growing v).look rest]
    constructor
    · rintro (⟨e, he, _⟩ | ⟨sight, w₁, drive, h⟩)
      · cases he
      · obtain ⟨_, ⟨⟩, drive⟩ := Exec.ends_look.mp drive
        obtain ⟨e | seen, ⟨⟩, h'⟩ := (Exec.ends_map (sight :: ·)).mp h
        exact .cons drive (ih.mp h')
    · rintro (_ | ⟨drive, h⟩)
      refine Or.inr ⟨_, _, Exec.ends_look.mpr ⟨_, rfl, drive⟩, ?_⟩
      exact (Exec.ends_map _).mpr ⟨_, rfl, ih.mpr h⟩

theorem throughout_cons {source : Nat → Source V} (growing : ∀ v, Exec.Growing (source · v))
    {P : V → Sight → V → Prop} {v : Value} {driver : List Value} {w w' : V} (bound : Nat)
    (sight : Sight) (drive : source bound v w = (.of sight, w')) (holds : P w sight w')
    (rest : Throughout source P driver w') : Throughout source P (v :: driver) w := by
  intro sight' w'' h
  obtain ⟨rfl, rfl⟩ := (growing v).unique h ⟨bound, drive⟩
  exact ⟨holds, rest⟩

/-- Two computations show a driver the same if each drive of one is a drive of the other and leaves
matching worlds. This may rely on a property that the drives of the first one have throughout. -/
theorem shows_iff_of_match {source : Nat → Source V} {other : Nat → Source U}
    (growing : ∀ v, Exec.Growing (source · v)) (growing' : ∀ v, Exec.Growing (other · v))
    {view : V → X} {view' : U → X} (P : V → Sight → V → Prop) (Match : V → U → Prop)
    (same : ∀ {w u}, Match w u → view w = view' u)
    (forth : ∀ {w u v sight w'}, Match w u → P w sight w' → Exec.Ends (source · v) w sight w' →
      ∃ u', Exec.Ends (other · v) u sight u' ∧ Match w' u')
    (back : ∀ {w u v sight u'}, Match w u →
      (∀ sight w', Exec.Ends (source · v) w sight w' → P w sight w') →
      Exec.Ends (other · v) u sight u' → ∃ w', Exec.Ends (source · v) w sight w' ∧ Match w' u')
    {driver : List Value} {w : V} {u : U} (start : Match w u)
    (safe : Throughout source P driver w) {seen : List Sight} {left : X} :
    Shows source view driver w seen left ↔ Shows other view' driver u seen left := by
  simp only [Shows, ends_session growing, ends_session growing']
  induction driver generalizing w u seen with
  | nil =>
    constructor
    · rintro ⟨_, ⟨⟩, rfl⟩
      exact ⟨u, .nil, (same start).symm⟩
    · rintro ⟨_, ⟨⟩, rfl⟩
      exact ⟨w, .nil, same start⟩
  | cons v driver ih =>
    constructor
    · rintro ⟨w₂, ⟨⟩ | ⟨drive, rest⟩, hleft⟩
      obtain ⟨holds, safe⟩ := safe _ _ drive
      obtain ⟨u₁, drive', next⟩ := forth start holds drive
      -- The worlds match again, so the rest of the driver sees the same.
      obtain ⟨u₂, rest', hleft⟩ := (ih next safe).mp ⟨w₂, rest, hleft⟩
      exact ⟨u₂, .cons drive' rest', hleft⟩
    · rintro ⟨u₂, ⟨⟩ | ⟨drive', rest'⟩, hleft⟩
      obtain ⟨w₁, drive, next⟩ := back start (fun sight w' h => (safe sight w' h).1) drive'
      obtain ⟨w₂, rest, hleft⟩ := (ih next (safe _ _ drive).2).mpr ⟨u₂, rest', hleft⟩
      exact ⟨w₂, .cons drive rest, hleft⟩

end Source

end OneShot
