import OneShot.Proofs.Alike
import OneShot.Proofs.Passing

/-!
# Tracing is transparent

A tracer without a limit changes nothing that passes. The computation and its tracer go in
lockstep: they are fresh, suspended, running and finished at the same times. The records of the
tracer are taken to raise nothing and to change nothing.
-/

namespace OneShot

open Exec

variable {V T S : Type}

namespace Tracing

variable {host : Host V} {source : Source V} {label : Value}

/-! ## A tracer without a limit -/

def Phase.steps : Phase → Nat
  | .start => 0
  | .waiting steps => steps

/-- The value that the source is driven with. -/
def Phase.value : Phase → Value → Value
  | .start, _ => .nil
  | .waiting _, v => v

/-- What a step of the source is to the tracer after `steps` suspensions. -/
def passed (steps : Nat) : Step → Move Phase
  | .suspended action => .suspend action (.waiting (steps + 1))
  | .completed result => .complete result

theorem step_passed (steps : Nat) (step : Step) : (passed steps step).step = step := by
  cases step <;> rfl

theorem pass_unlimited (quiet : ∀ n, host.note n = pure ()) (steps : Nat) (step : Step) :
    pass host label .nil steps step = pure (passed steps step) := by
  cases step <;> simp [pass, checkLimit, passed, quiet]

theorem advance_unlimited (quiet : ∀ n, host.note n = pure ()) (phase : Phase) (v : Value) :
    advance host label .nil source phase v = (do
      return passed phase.steps (← source (phase.value v))) := by
  cases phase <;> simp [advance, quiet, pass_unlimited quiet, Phase.steps, Phase.value]

/-- The computation that traces a source. The log is not part of the world. -/
def tracing (host : Host V) (label limit : Value) (source : Source V) : Source (V × Life Phase) :=
  Source.ofBody host.mint (advance host.quiet label limit source)

/-! ## Lockstep -/

inductive Lockstep : Life S → Life Phase → Prop where
  | fresh {s} : Lockstep (.fresh s) (.fresh .start)
  | suspended {s steps} : Lockstep (.suspended s) (.suspended (.waiting steps))
  | running {s phase} : Lockstep (.running s) (.running phase)
  | finished : Lockstep .finished .finished

theorem Lockstep.left (o : Except Error (Move S)) (steps : Nat) :
    Lockstep (Life.left o) (Life.left ((o.map Move.step).map (passed steps))) := by
  rcases o with e | ⟨action, s⟩ | r
  · exact .finished
  · exact .suspended
  · exact .finished

theorem Lockstep.enters {l : Life S} {m : Life Phase} (h : Lockstep l m) {v u : Value} {s : S}
    (entry : l.enters? v = some (s, u)) :
    ∃ phase u', m.enters? v = some (phase, u') ∧ l.enters? (phase.value u') = some (s, u) := by
  cases h with
  | fresh => exact ⟨.start, .nil, rfl, entry⟩
  | suspended => exact ⟨_, v, rfl, entry⟩
  | running => cases entry
  | finished => cases entry

/-- A world without tracers, and the same world with tracers beside it. -/
def Traced (fits : V → T → Prop) (p : V) (q : V × T) : Prop := q.1 = p ∧ fits p q.2

/-- The cells of a computation and of its tracer. The two go in lockstep, and a world with tracers
stays one if both go on. -/
structure Together (fits : V → T → Prop) (cell : Cell V (Life S)) (tracer : Cell T (Life Phase)) :
    Prop where
  lockstep : ∀ p t, fits p t → Lockstep (cell.get p) (tracer.get t)
  sets : ∀ l m p t, fits p t → Lockstep l m → fits (cell.set l p) (tracer.set m t)

end Tracing

def Cell.ofFirst {X Y Z : Type} (cell : Cell X Z) : Cell (X × Y) Z where
  get p := cell.get p.1
  set z p := (cell.set z p.1, p.2)

def Cell.ofSecond {X Y Z : Type} (cell : Cell Y Z) : Cell (X × Y) Z where
  get p := cell.get p.2
  set z p := (p.1, cell.set z p.2)

namespace Tracing

section

variable {fits : V → T → Prop} {host : Host V} {cell : Cell V (Life S)}
  {tracer : Cell T (Life Phase)} {body : S → Value → Exec V (Move S)}
  {body' : S → Value → Exec (V × T) (Move S)} (label : Value) {tracerHost : Host (V × T)}

theorem seal_passed {host : Host V} (mints : host.Mints) (o : Except Error (Move S)) (steps : Nat)
    (w : V) : ∃ sight w', Life.seal host.mint o w = (.of sight, w') ∧
      Life.left (sight.map (passed steps)) = Life.left ((o.map Move.step).map (passed steps)) ∧
      Life.seal host.mint (sight.map (passed steps)) w' = (.of sight, w') := by
  rcases o with e | move
  · obtain ⟨e', w', hseal, hkind, -⟩ := Life.seal_error (S := S) mints e w
    refine ⟨.error e', w', hseal, rfl, ?_⟩
    simp [Except.map, Life.seal, if_neg hkind, Exec.raise]
  · refine ⟨.ok move.step, w, rfl, rfl, ?_⟩
    simp only [Except.map, Life.seal, step_passed]
    rfl

variable (together : Together fits cell tracer) (mints : host.Mints)
  (kept : ∀ cause, Alike (Traced fits) (host.mint cause) (host.beside.mint cause))
  (quiet : ∀ n, tracerHost.note n = pure ())
  (bodies : ∀ s v, Alike (Traced fits) (body s v) (body' s v))

include kept in
theorem alike_seal (o : Except Error (Move S)) :
    Alike (Traced fits) (Life.seal host.mint o) (Life.seal host.beside.mint o) := by
  cases o with
  | ok move => exact alike_pure _
  | error e =>
    by_cases stop : e.kind = .stopIteration
    · simp only [Life.seal, if_pos stop]
      exact (kept _).bind alike_raise
    · simp only [Life.seal, if_neg stop]
      exact alike_raise e

omit together mints kept quiet bodies in
theorem seal_of_beside {T : Type} {o : Except Error (Move S)} {sight : Sight} {w w' : V} {t : T}
    (h : Life.seal host.mint o w = (.of sight, w')) :
    Life.seal host.beside.mint o (w, t) = (.of sight, (w', t)) := by
  rw [Dispatch.seal_beside, Exec.beside_eq]
  exact ⟨h, rfl⟩

include together mints kept quiet bodies

theorem traced_enter {p p₂ : V} {t : T} (fit : fits p t) {v u u' : Value} {s : S} {phase : Phase}
    (entry' : (tracer.get t).enters? v = some (phase, u'))
    (entry : (cell.get p).enters? (phase.value u') = some (s, u)) {r : Result Step}
    (plain : Life.enter host.mint cell body s u p = (r, p₂)) :
    ∃ t₂, Life.drive host.beside.mint tracer.ofSecond
        (advance tracerHost label .nil (Life.drive host.beside.mint cell.ofFirst body')) v (p, t) =
      (r, (p₂, t₂)) ∧ fits p₂ t₂ := by
  have running := together.sets (.running s) (.running phase) p t fit .running
  obtain ⟨hresult, hworld⟩ := bodies s u _ (_, tracer.set (.running phase) t) ⟨rfl, running⟩
  rcases hbody : body s u (cell.set (.running s) p) with ⟨r₁, p₁⟩
  rcases hbody' : body' s u (cell.set (.running s) p, tracer.set (.running phase) t) with
    ⟨r₁', p₁', t₁⟩
  rw [hbody, hbody'] at hresult hworld
  obtain rfl : r₁ = r₁' := hresult
  obtain ⟨rfl, fit₁⟩ : p₁' = p₁ ∧ fits p₁ t₁ := hworld
  have drives : Life.drive host.beside.mint cell.ofFirst body' (phase.value u')
      (p, tracer.set (.running phase) t) = Life.enter host.beside.mint cell.ofFirst body' s u _ :=
    Life.drive_entered entry
  have advances : advance tracerHost label .nil (Life.drive host.beside.mint cell.ofFirst body')
      phase u' (tracer.ofSecond.set (.running phase) (p, t)) = _ :=
    congrFun (advance_unlimited quiet phase u') _
  rw [Life.drive_entered (w := (p, t)) entry']
  rcases r₁.exhausted_or_of with rfl | ⟨o, rfl⟩
  · have inner := drives.trans (Life.enter_exhausted _ hbody')
    have traced := Life.enter_exhausted host.beside.mint (advances.trans (bind_exhausted inner))
    obtain ⟨rfl, rfl⟩ := Prod.mk.inj ((Life.enter_exhausted _ hbody).symm.trans plain)
    exact ⟨_, traced, together.sets _ _ _ _ fit₁ .finished⟩
  · -- The computation seals its end, and the tracer seals what it has been given once more.
    obtain ⟨sight, p₃, hseal, hleft, hagain⟩ :=
      seal_passed mints o phase.steps (cell.set (Life.left o) p₁')
    obtain ⟨rfl, rfl⟩ := Prod.mk.inj (((Life.enter_ended _ hbody).trans hseal).symm.trans plain)
    have inner := (drives.trans (Life.enter_ended _ hbody')).trans (seal_of_beside hseal)
    have traced := Life.enter_ended host.beside.mint (advances.trans (bind_of inner))
    have fit₂ := together.sets _ _ _ _ fit₁ (.left o phase.steps)
    have fit₃ := (alike_seal kept o _ (_, _) ⟨rfl, fit₂⟩).2.2
    rw [seal_of_beside hseal, hseal] at fit₃
    rw [hleft] at traced
    exact ⟨_, traced.trans (seal_of_beside hagain), fit₃⟩

theorem alike_tracer (v : Value) :
    Alike (Traced fits) (Life.drive host.mint cell body v)
      (Life.drive host.beside.mint tracer.ofSecond
        (advance tracerHost label .nil (Life.drive host.beside.mint cell.ofFirst body')) v) := by
  rintro _ ⟨p, t⟩ ⟨rfl, fit⟩
  have step := together.lockstep p t fit
  obtain ⟨s, u, hentry⟩ | ⟨s, life⟩ | life := (cell.get p).enters_or v
  · obtain ⟨phase, u', entry', entry⟩ := step.enters hentry
    rw [Life.drive_entered hentry]
    rcases plain : Life.enter host.mint cell body s u p with ⟨r, p₂⟩
    obtain ⟨t₂, traced, fit₂⟩ :=
      traced_enter label together mints kept quiet bodies fit entry' entry plain
    rw [traced]
    exact ⟨rfl, rfl, fit₂⟩
  · rw [life] at step
    obtain ⟨phase, life'⟩ : ∃ phase, tracer.get t = .running phase := by
      generalize tracer.get t = m at step
      cases step
      exact ⟨_, rfl⟩
    rw [Life.drive_running life, Life.drive_running (w := (p, t)) life']
    exact ((kept _).bind alike_raise) p (p, t) ⟨rfl, fit⟩
  · rw [life] at step
    have life' : tracer.get t = .finished := by
      generalize tracer.get t = m at step
      cases step
      rfl
    rw [Life.drive_finished life, Life.drive_finished (w := (p, t)) life']
    exact ⟨rfl, rfl, fit⟩

end

end Tracing

/-! ## Beside a world -/

namespace Exec

variable {W X α : Type}

@[simp] theorem beside_read (f : W → α) :
    (read f).beside = (read fun p => f p.1 : Exec (W × X) α) := rfl

@[simp] theorem beside_modify (f : W → W) :
    (modify f).beside = (modify fun p => (f p.1, p.2) : Exec (W × X) Unit) := rfl

@[simp] theorem beside_attempt (x : Exec W α) :
    x.attempt.beside = (x.beside.attempt : Exec (W × X) (Result α)) := rfl

@[simp] theorem beside_exhausted :
    (exhausted : Exec W α).beside = (exhausted : Exec (W × X) α) := rfl

end Exec

section

variable {W X : Type}

theorem Life.drive_beside (mint : Cause Value → Exec W Error) (cell : Cell W (Life S))
    (body : S → Value → Exec W (Move S)) (v : Value) :
    ((drive mint cell body v).beside : Exec (W × X) Step) =
      drive (fun cause => (mint cause).beside) cell.ofFirst (fun s v => (body s v).beside) v := by
  have enters (s : S) (v : Value) : ((enter mint cell body s v).beside : Exec (W × X) Step) =
      enter (fun cause => (mint cause).beside) cell.ofFirst (fun s v => (body s v).beside) s v := by
    simp only [enter, beside_bind, beside_modify, beside_attempt]
    congr 1
    funext _
    congr 1
    funext ended
    congr 1
    funext _
    cases ended with
    | ok move => rfl
    | raised e => by_cases stop : e.kind = .stopIteration <;> simp [stop]
    | exhausted => rfl
  simp only [drive, beside_bind, beside_read]
  congr 1
  funext life
  cases life <;> simp [enters]

end

/-! ## A tracer around a computation -/

section

variable {W X : Type}

theorem Host.Mints.beside {host : Host W} (mints : host.Mints) :
    (host.beside : Host (W × X)).Mints := by
  rintro cause ⟨w, x⟩
  obtain ⟨e, w', h, hcause⟩ := mints cause w
  exact ⟨e, (w', x), Exec.beside_eq.mpr ⟨h, rfl⟩, hcause⟩

theorem Exec.Alike.session {U : Type} {R : V → U → Prop} {c : Source V} {c' : Source U}
    (alike : ∀ v, Alike R (c v) (c' v)) (driver : List Value) :
    Alike R (session c driver) (OneShot.session c' driver) := by
  induction driver with
  | nil => exact alike_pure _
  | cons v driver ih => exact (alike v).look.bind fun _ => ih.bind fun _ => alike_pure _

namespace Tracing

theorem alike_outer {α : Type} {fits : X → T → Prop} (x : Exec W α) :
    Alike (Traced fun p : W × X => fits p.2) x.beside x.beside.beside := by
  rintro ⟨w, l⟩ ⟨_, t⟩ ⟨rfl, fit⟩
  exact ⟨rfl, rfl, fit⟩

theorem alike_services (fits : X → T → Prop) (host : Host W) :
    host.beside.Alike (Traced fun p : W × X => fits p.2) host.beside.beside where
  drive _ _ := alike_outer _
  call _ _ := alike_outer _
  issue _ := alike_outer _
  outcome _ := alike_outer _
  note _ := alike_outer _
  mint _ := alike_outer _

variable {host : Host W} (mints : host.Mints) {body : S → Value → Exec W (Move S)}

include mints

theorem alike_tracing (label v : Value) :
    Alike (Traced fun p : W × Life S => Lockstep p.2) (Source.ofBody host.mint body v)
      (tracing host.beside label .nil (Source.ofBody host.mint body) v) := by
  let services : Host (W × Life S) := host.beside
  let whole : Cell (Life Phase) (Life Phase) := ⟨id, fun m _ => m⟩
  have together : Together (fun p : W × Life S => Lockstep p.2) Cell.second whole :=
    ⟨fun _ _ fit => fit, fun _ _ _ _ _ step => step⟩
  have traced : (fun phase v =>
      ((advance services.quiet label .nil (Source.ofBody host.mint body) phase v).beside :
          Exec ((W × Life S) × Life Phase) (Move Phase))) =
        advance services.quiet.beside label .nil
          (Life.drive services.beside.mint Cell.second.ofFirst
            fun s v => (body s v).beside.beside) := by
    funext phase v
    rw [advance_unlimited fun _ => rfl, advance_unlimited fun _ => rfl, beside_bind]
    exact congrArg (· >>= _) (Life.drive_beside _ _ _ _)
  have alike := alike_tracer label together mints.beside (alike_services _ host).mint
    (fun _ => rfl : ∀ n, services.quiet.beside.note n = pure ())
    (fun s v => alike_outer (body s v)) v
  rw [← traced] at alike
  exact alike

theorem alike_handling_tracing (label : Value) (table : Table) (bound : Nat) (v : Value) :
    Alike (Alongside (Traced fun p : W × Life S => Lockstep p.2))
      (Dispatch.handling host.beside table (Source.ofBody host.mint body) bound v)
      (Dispatch.handling host.beside.beside table
        (tracing host.beside label .nil (Source.ofBody host.mint body)) bound v) :=
  Dispatch.alike_handling (alike_services _ host) (alike_tracing mints label) table bound v

end Tracing

end

end OneShot
