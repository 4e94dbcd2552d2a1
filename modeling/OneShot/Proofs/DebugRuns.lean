import OneShot.Proofs.Questions
import OneShot.Proofs.Runs
import OneShot.Proofs.Snapshots
import OneShot.Proofs.Transparent

/-!
# Debug runs

A debug run puts a tracer around the source. The first drive of the tracer is a drive of the source,
which does what it does in a plain run unless it looks at what is in progress around it.
-/

namespace OneShot

theorem Result.raised_of_map {α β : Type} {f : α → β} {r : Result α} {e : Error}
    (h : r.map f = .raised e) : r = .raised e := by
  cases r with
  | raised e' =>
    cases h
    rfl
  | _ => cases h

/-- Runs with something new beside the world, which is dropped at the end. -/
def Exec.aside {W X α : Type} (x : Exec (W × X) α) (start : X) : Exec W α := fun w =>
  ((x (w, start)).1, (x (w, start)).2.1)

/-! ## A tracer beside the world -/

section

variable {W : Type} {host : Host W} {source : Source W} {label : Value} {n : Int}

/-- An end of iteration does not come out of the source. -/
def Source.Plain (source : Source W) : Prop :=
  ∀ v w e w', source v w = (.raised e, w') → e.kind ≠ .stopIteration

namespace Tracing

/-- What a tracer notes in its first drive. -/
def record (label : Value) : Step → Note
  | .suspended action => .traceSuspended label 1 action
  | .completed result => .traceCompleted label 0 result

theorem advance_first (positive : 1 ≤ n) (v : Value) :
    advance host label (.int n) source .start v = (do
      let step ← source .nil
      host.note (record label step)
      return passed 0 step) := by
  have within : ¬ n < 1 := by omega
  refine congrArg (source .nil >>= ·) (funext fun step => ?_)
  cases step with
  | suspended x => simp [pass, checkLimit, Value.number?, within, record, passed]
  | completed v => rfl

theorem step_map_passed {T : Type} (f : Phase → T) (r : Result Step) :
    (r.map fun step => (passed 0 step).map f).map Move.step = r := by
  rcases r with (x | v) | e | _ <;> rfl

theorem first_drive (plain : source.Plain) (positive : 1 ≤ n) (w : W) :
    ∃ l, tracing host label (.int n) source .nil (w, .fresh .start) =
      ((source .nil w).1, ((source .nil w).2, l)) := by
  rcases driven : source .nil w with ⟨r, w₁⟩
  have run : advance host.quiet label (.int n) source .start .nil w = (r.map (passed 0), w₁) := by
    rw [advance_first positive]
    cases r with
    | ok step => exact Exec.bind_ok driven
    | raised e => exact Exec.bind_raised driven
    | exhausted => exact Exec.bind_exhausted driven
  have entry : (Life.fresh Phase.start).enters? .nil = some (.start, .nil) := rfl
  refine ⟨Life.after (r.map (passed 0)), ?_⟩
  rw [tracing, Source.ofBody_entered entry, enter_apply, run]
  cases r with
  | ok step => exact congrArg (·, _) (congrArg Result.ok (step_passed 0 step))
  | raised e =>
    exact congrArg (fun p => (p.1, (p.2, _))) (Life.seal_plain (plain _ _ _ _ driven) host.mint w₁)
  | exhausted => rfl

end Tracing

/-- A run with a tracer around the source cannot be told from a run of the source. -/
theorem TopLevel.finish_traced (plain : source.Plain) (positive : 1 ≤ n) :
    Exec.aside (finish host.beside (Tracing.tracing host label (.int n) source)) (.fresh .start) =
      finish host source := by
  funext w
  obtain ⟨l, drive⟩ := @Tracing.first_drive W host source label n plain positive w
  simp only [Exec.aside, finish, Bind.bind, Exec.bind, drive]
  rcases source .nil w with ⟨r, w₁⟩
  rcases r with (x | v) | e | _
  · simp only [Host.fail, Host.beside_mint, Bind.bind, Exec.bind, Exec.beside_apply]
    rcases host.mint (.unhandled x) w₁ with ⟨r, w₂⟩
    cases r <;> rfl
  all_goals rfl

end

namespace World

variable {L : Language} {program : Program L} {steps c t : Nat} {n : Int} {limit source : Value}
  {w w₁ w' : World L} {host : Host (World L)} {drive : Nat → Value → Exec (World L) Step}
  {call : Value → List Value → Exec (World L) Value}

/-- A debug run with its tracer beside the world. -/
def debugging (host : Host (World L)) (source limit : Value) : Exec (World L) Value := do
  let computation ← toComputation host source
  let traced := Tracing.tracing host (.str debugLabel) limit (host.drive computation)
  holding [.computation computation]
    (Exec.aside (TopLevel.finish host.beside traced) (.fresh .start))

theorem debugging_eq (orderly : Orderly program host) (positive : 1 ≤ n) (source : Value) :
    debugging host source (.int n) = run host source := by
  simp only [debugging, run]
  refine bind_congr fun c => ?_
  rw [TopLevel.finish_traced (fun _ _ _ _ raised => orderly.plain raised) positive]

/-! ## A tracer in the world -/

/-- The tracer of a debug run. -/
def tracer (c : Nat) (limit : Value) : Body L := .tracing c (.str debugLabel) limit .start

/-- The world in which the tracer of a debug run has been taken up. -/
def withTracer (c : Nat) (limit : Value) (w : World L) : World L :=
  (lifeCell w.computations.next).set (.running (tracer c limit))
    (w.addComputation "_traced" (tracer c limit)).2

/-- The world in which the tracer of a debug run drives the source. -/
def watched (c : Nat) (limit : Value) (w : World L) : World L :=
  let spawned := held w.computations.next (w.addComputation "_traced" (tracer c limit)).2
  (lifeCell w.computations.next).set (.running (tracer c limit))
    { spawned with drives := w.computations.next :: spawned.drives }

theorem watched_same (c : Nat) (limit : Value) (w : World L) :
    Uneventful w (watched c limit w) ∧ ∀ m < w.computations.next,
      (lifeCell m).get (watched c limit w) = (lifeCell m).get w := by
  let spawned := (w.addComputation "_traced" (tracer c limit)).2
  let driven : World L := { spawned with
    pending := .computation w.computations.next :: spawned.pending
    drives := w.computations.next :: spawned.drives }
  have made : Uneventful w spawned := uneventful_addComputation _ _ w
  have noted : Uneventful spawned driven := .noted
  have running : Unmoved (fun m => m = w.computations.next) driven (watched c limit w) :=
    .set_self _ _ driven
  refine ⟨made.trans (noted.trans running.uneventful), fun m old => ?_⟩
  exact (running.life m (Nat.ne_of_lt old)).trans (life_addComputation_of_lt _ _ old)

theorem debugRun_of (converted : toComputation host source w = (.ok c, w₁)) :
    debugRun host source limit w = run host (.computation w₁.computations.next)
      (w₁.addComputation "_traced" (tracer c limit)).2 := by
  have traces : traced host source (.str debugLabel) limit w =
      (.ok (.computation w₁.computations.next),
        (w₁.addComputation "_traced" (tracer c limit)).2) := by
    rw [traced, Exec.bind_ok converted, ← fst_addComputation "_traced" (tracer c limit)]
    rfl
  rw [debugRun, Exec.bind_ok traces]

theorem uneventful_record (label : Value) (step : Step) (w : World L) :
    Uneventful w (note (Tracing.record label step) w).2 := by
  have traced : (w.eventOf (Tracing.record label step)).isTrace = true := by cases step <;> rfl
  simp only [note, Exec.modify]
  split
  · refine ⟨⟨_, _, _, _, _, _, _, rfl⟩, ?_⟩
    simp only [addEvent, List.filter_cons, traced, Bool.not_true, Bool.false_eq_true, if_false]
  · exact .refl w

section

variable {r : Result Step} (positive : 1 ≤ n)

include positive

theorem moveBody_tracer (program : Program L) (steps : Nat)
    (call : Value → List Value → Exec (World L) Value) (driven : drive c .nil w = (r, w₁)) :
    ∃ w', moveBody program (World.host drive call) steps (tracer c (.int n)) .nil w =
        (r.map fun step => (Tracing.passed 0 step).map (.tracing c (.str debugLabel) (.int n)),
          w') ∧
      Unmoved (fun _ => False) w₁ w' := by
  simp only [moveBody, tracer, Tracing.advance_first positive, bind_assoc, pure_bind]
  cases r with
  | ok step =>
    let record := Tracing.record (.str debugLabel) step
    refine ⟨(note record w₁).2, (Exec.bind_ok driven).trans (Exec.bind_ok rfl), ?_⟩
    exact .of_uneventful (uneventful_record _ step w₁) (Shadowing.computations_note record w₁)
  | raised e => exact ⟨w₁, Exec.bind_raised driven, .refl _ _⟩
  | exhausted => exact ⟨w₁, Exec.bind_exhausted driven, .refl _ _⟩

/-- What a debug run can move besides its source: its tracer, and what is delegated to that. -/
def OfTracer (program : Program L) (tracer : Nat) (w : World L) (m : Nat) : Prop :=
  m = tracer ∨ Delegation.of? program w m = some tracer

/-- The first drive of the tracer of a debug run is a drive of the source. -/
theorem tracer_drive (steps : Nat) (modest : program.Modest)
    (orderly : Orderly program (World.host drive call))
    (driven : drive c .nil (watched c (.int n) w) = (r, w₁)) :
    ∃ w', (answering program steps (World.host drive call)).drive w.computations.next .nil
        (held w.computations.next (w.addComputation "_traced" (tracer c (.int n))).2) = (r, w') ∧
      Unmoved (OfTracer program w.computations.next w₁) w₁ w' := by
  let start := held w.computations.next (w.addComputation "_traced" (tracer c (.int n))).2
  have alone : Delegation.owners program start w.computations.next = [] := owners_new _ _ w
  have begins := begun_alone alone
  have entry : ((lifeCell w.computations.next).get
      (begun program w.computations.next start)).enters? .nil = some (tracer c (.int n), .nil) := by
    rw [begins]
    exact congrArg (Life.enters? · .nil) (life_addComputation _ _ w)
  have watches : (lifeCell w.computations.next).set (.running (tracer c (.int n)))
      (begun program w.computations.next start) = watched c (.int n) w := by
    rw [begins]
    rfl
  obtain ⟨w₂, moves, noted⟩ := moveBody_tracer positive program steps call driven
  rw [← watches] at moves
  have bare := (Life.drive_entered entry).trans <| Life.enter_plain mint moves fun e raised =>
    orderly.plain (driven.trans (congrArg (·, w₁) (Result.raised_of_map raised)))
  rw [Tracing.step_map_passed] at bare
  obtain ⟨w', drives, attended⟩ := drive_of_bare bare
  refine ⟨w', drives, ?_⟩
  -- The tracer comes to rest, and then those that are delegated to it can be given up.
  have rests (life : Life (Body L)) : Unmoved (fun m => m = w.computations.next) w₁
      ((lifeCell w.computations.next).set life w₂) :=
    (noted.mono fun _ => False.elim).trans (.set_self _ life w₂)
  refine ((rests _).mono fun _ => .inl).trans ((attended modest).mono fun m delegated => ?_)
  by_cases own : m = w.computations.next
  · exact .inl own
  · rw [Delegation.of?, (rests _).life m own] at delegated
    exact .inr delegated

theorem debugRun_decided (modest : program.Modest)
    (orderly : Orderly program (World.host drive call))
    (converted : toComputation (answering program steps (World.host drive call)) source w =
      (.ok c, w₁)) :
    let driven := drive c .nil (watched c (.int n) w₁)
    DecidedBy program c (OfTracer program w₁.computations.next driven.2) driven
      (debugRun (answering program steps (World.host drive call)) source (.int n) w) := by
  intro driven
  let host := answering program steps (World.host drive call)
  have given : toComputation host (.computation w₁.computations.next)
      (w₁.addComputation "_traced" (tracer c (.int n))).2 = (.ok w₁.computations.next, _) := rfl
  obtain ⟨w', drives, unmoved⟩ := tracer_drive positive steps modest orderly
    (rfl : driven = (driven.1, driven.2))
  have run : DecidedBy program _ _ (host.drive _ _ _) _ :=
    run_decided (orderly_answering modest) given
  rw [drives] at run
  rw [debugRun_of converted]
  exact decidedBy orderly run.concludes (unmoved.trans (run.unmoved.mono fun _ => False.elim))

end

end World

end OneShot
