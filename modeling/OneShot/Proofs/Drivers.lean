import OneShot.Proofs.Watching
import OneShot.Script.Eval

/-!
# Drivers that agree

A source is run to its end in three ways: plainly, with a record of the result, and with a tracer
around it. Each drives the source once and ends as that drive ends.
-/

namespace OneShot

theorem ErrorKind.isCatchable_iff {kind : ErrorKind} :
    kind.isCatchable = true ↔ kind ≠ .keyboardInterrupt ∧ kind ≠ .systemExit := by
  cases kind <;> decide

namespace World

variable {L : Language} {program : Program L} {steps depth : Nat} {n : Int} {w w₁ : World L}

/-! ## A run with a record -/

/-- Between the worlds a record was made, and what it holds was noted as held. -/
structure Marked (w w' : World L) : Prop where
  same : ∃ computations reports stored, w' = { w with computations, reports, stored }
  life : ∀ m, (lifeCell m).get w' = (lifeCell m).get w
  reports : ∀ id r, w.reports.get? id = some r → w'.reports.get? id = some r

namespace Marked

theorem refl (w : World L) : Marked w w := ⟨⟨_, _, _, rfl⟩, fun _ => rfl, fun _ _ h => h⟩

theorem trans {w₂ : World L} (h : Marked w w₁) (h' : Marked w₁ w₂) : Marked w w₂ := by
  obtain ⟨computations, reports, stored, rfl⟩ := h.same
  obtain ⟨computations', reports', stored', rfl⟩ := h'.same
  exact ⟨⟨_, _, _, rfl⟩, fun m => (h'.life m).trans (h.life m),
    fun id r known => h'.reports id r (h.reports id r known)⟩

theorem keep (v : Value) (w : World L) : Marked w (w.keep v) := by
  cases v with
  | computation id =>
    simp only [World.keep]
    cases found : w.computations.get? id with
    | none => exact refl w
    | some c =>
      simp only
      split
      · exact refl w
      · exact ⟨⟨_, _, _, rfl⟩, life_replace found rfl, fun _ _ h => h⟩
  | error e => exact ⟨⟨_, _, _, rfl⟩, fun _ => rfl, fun _ _ h => h⟩
  | report id => exact ⟨⟨_, _, _, rfl⟩, fun _ => rfl, fun _ _ h => h⟩
  | _ => exact refl w

theorem keepCallers (w : World L) : Marked w w.keepCallers := by
  simp only [World.keepCallers]
  split
  · exact keep _ w
  · exact refl w

theorem addReport (r : Report) (w : World L) : Marked w (w.addReport r).2 :=
  ⟨⟨_, _, _, rfl⟩, fun _ => rfl, fun _ _ known =>
    (w.reports.get?_add_of_lt r (Pool.lt_next known)).trans known⟩

end Marked

/-- What a run with a record gives in a world, for the end of the run. An interrupt or an exit goes
past the record. -/
inductive Reported (w : World L) : Result Value → Result Value → Prop where
  | value {v : Value} {id : Nat} (kept : w.reports.get? id = some { value := v, error := .nil }) :
      Reported w (.ok v) (.ok (.report id))
  | error {e : Error} {id : Nat} (ordinary : e.kind ≠ .keyboardInterrupt ∧ e.kind ≠ .systemExit)
      (kept : w.reports.get? id = some { value := .nil, error := .error e }) :
      Reported w (.raised e) (.ok (.report id))
  | escaped {e : Error} (ending : e.kind = .keyboardInterrupt ∨ e.kind = .systemExit) :
      Reported w (.raised e) (.raised e)
  | exhausted : Reported w .exhausted .exhausted

theorem safeRun_reported (host : Host (World L)) (source : Value) (w : World L) :
    Reported (safeRun host source w).2 (run host source w).1 (safeRun host source w).1 ∧
      Marked (run host source w).2 (safeRun host source w).2 := by
  rcases ran : run host source w with ⟨r, w₁⟩
  cases r with
  | ok v =>
    have safe : safeRun host source w =
        Exec.alter (addReport { value := v, error := .nil }) w₁ := by
      simp only [safeRun, Exec.rescue, Exec.bind_ok ran]
      rfl
    rw [safe]
    exact ⟨.value (Pool.get?_add _ _), .addReport _ w₁⟩
  | raised e =>
    -- What is caught is recorded. An interrupt or an exit is raised again.
    by_cases catchable : e.kind.isCatchable = true
    · have ordinary := ErrorKind.isCatchable_iff.mp catchable
      have safe : safeRun host source w =
          Exec.alter (addReport { value := .nil, error := .error e }) w₁.keepCallers := by
        simp only [safeRun, Exec.rescue, Exec.bind_raised ran, if_pos catchable]
        rfl
      rw [safe]
      exact ⟨.error ordinary (Pool.get?_add _ _), (Marked.keepCallers w₁).trans (.addReport _ _)⟩
    · have safe : safeRun host source w = (.raised e, w₁) := by
        simp only [safeRun, Exec.rescue, Exec.bind_raised ran, if_neg catchable]
        rfl
      rw [safe]
      rw [ErrorKind.isCatchable_iff, not_and_or, not_not, not_not] at catchable
      exact ⟨.escaped catchable, .refl w₁⟩
  | exhausted =>
    have safe : safeRun host source w = (.exhausted, w₁) := by
      simp only [safeRun, Exec.rescue, Exec.bind_exhausted ran]
    rw [safe]
    exact ⟨.exhausted, .refl w₁⟩

theorem Reported.isError {r : Result Value} {v : Value} (h : Reported w r (.ok v)) :
    ∃ b, access v "is_error" w = (.ok (.bool b), w) ∧ (b = true ↔ ∃ e, r = .raised e) := by
  cases h with
  | value kept =>
    refine ⟨false, ?_, by simp⟩
    simp only [access, Exec.read, Bind.bind, Exec.bind, attribute?, kept]
    rfl
  | error ordinary kept =>
    refine ⟨true, ?_, by simp⟩
    simp only [access, Exec.read, Bind.bind, Exec.bind, attribute?, kept]
    rfl

/-- Runs a source with a record and takes out what the record keeps. -/
def unwrapping (host : Host (World L)) (source : Value) : Exec (World L) Value := do
  invoke host.call (← safeRun host source) "unwrap" []

theorem invoke_unwrap {id : Nat} {v e : Value}
    (kept : w.reports.get? id = some { value := v, error := e }) :
    invoke (kernel program steps (depth + 1)).call (.report id) "unwrap" [] w =
      unwrap { value := v, error := e } w := by
  have accessed : access (.report id) "unwrap" w = (.ok (.method (.report id) .unwrap), w) := by
    simp only [access, Exec.read, Bind.bind, Exec.bind, attribute?, kept]
    rfl
  have found : Exec.read (fun w => w.reports.get? id) w =
      (.ok (some { value := v, error := e }), w) := congrArg (fun r => (Result.ok r, w)) kept
  rw [invoke, Exec.bind_ok accessed]
  exact Exec.bind_ok found

theorem unwrapping_eq (source : Value) (w : World L) :
    let host := kernel program steps (depth + 1)
    (unwrapping host source w).1 = (run host source w).1 ∧
      Marked (run host source w).2 (unwrapping host source w).2 := by
  intro host
  obtain ⟨reported, marked⟩ := safeRun_reported host source w
  rcases safe : safeRun host source w with ⟨o, w₁⟩
  rcases ran : run host source w with ⟨r, w₀⟩
  rw [safe, ran] at reported marked
  cases reported with
  | value kept =>
    have unwraps : unwrapping host source w = (.ok _, w₁) :=
      (Exec.bind_ok safe).trans (invoke_unwrap kept)
    rw [unwraps]
    exact ⟨rfl, marked⟩
  | @error e id ordinary kept =>
    have unwraps : unwrapping host source w = (.raised e, w₁.keep (.error e)) :=
      (Exec.bind_ok safe).trans (invoke_unwrap kept)
    rw [unwraps]
    exact ⟨rfl, marked.trans (.keep (.error e) w₁)⟩
  | escaped ending =>
    have unwraps : unwrapping host source w = _ := Exec.bind_raised safe
    rw [unwraps]
    exact ⟨rfl, marked⟩
  | exhausted =>
    have unwraps : unwrapping host source w = _ := Exec.bind_exhausted safe
    rw [unwraps]
    exact ⟨rfl, marked⟩

/-! ## The drivers -/

theorem debugRun_unconverted (host : Host (World L)) (source limit : Value) (w : World L)
    (unconverted : ∀ c, (toComputation host source w).1 ≠ .ok c) :
    debugRun host source limit w = run host source w := by
  rcases converts : toComputation host source w with ⟨r, w₁⟩
  cases r with
  | ok c => exact absurd (congrArg Prod.fst converts) (unconverted c)
  | raised e =>
    have traces : traced host source (.str debugLabel) limit w = (.raised e, w₁) :=
      Exec.bind_raised converts
    exact (Exec.bind_raised traces).trans (Exec.bind_raised converts).symm
  | exhausted =>
    have traces : traced host source (.str debugLabel) limit w = (.exhausted, w₁) :=
      Exec.bind_exhausted converts
    exact (Exec.bind_exhausted traces).trans (Exec.bind_exhausted converts).symm

/-- The drivers agree on every source. A debug run with a positive limit is a run with a tracer
beside the world, and a run with a record gives what the run gives once the record is unwrapped. The
record says whether the run has raised, and only an interrupt or an exit goes past it. In the world
itself, a source that gives no computation fails in the same way, and any other one is driven once
by either driver, in worlds that differ in the tracer only. That drive decides how the run ends,
what it does and how it leaves the source. Where drives, calls and user code do not tell whether the
source is watched, a debug run does what the run with its tracer beside the world does. -/
theorem drivers_agree (modest : program.Modest) (steps depth : Nat) (source : Value)
    (positive : 1 ≤ n) :
    let host := kernel program steps (depth + 1)
    let below := kernel program steps depth
    debugging host source (.int n) = run host source ∧
    (∀ w, (unwrapping host source w).1 = (run host source w).1 ∧
      Marked (run host source w).2 (unwrapping host source w).2) ∧
    (∀ w, Reported (safeRun host source w).2 (run host source w).1 (safeRun host source w).1 ∧
      ∀ v, (safeRun host source w).1 = .ok v → ∃ b,
        access v "is_error" (safeRun host source w).2 = (.ok (.bool b), (safeRun host source w).2) ∧
        (b = true ↔ ∃ e, (run host source w).1 = .raised e)) ∧
    (∀ w, (∀ c, (toComputation host source w).1 ≠ .ok c) →
      debugRun host source (.int n) w = run host source w) ∧
    (∀ w c w₁, toComputation host source w = (.ok c, w₁) →
      let plain := host.drive c .nil (held c w₁)
      let traced := below.drive c .nil (watched c (.int n) w₁)
      (Uneventful w₁ (watched c (.int n) w₁) ∧ ∀ m < w₁.computations.next,
        (lifeCell m).get (watched c (.int n) w₁) = (lifeCell m).get w₁) ∧
      DecidedBy program c (fun _ => False) plain (run host source w) ∧
      DecidedBy program c (OfTracer program w₁.computations.next traced.2) traced
        (debugRun host source (.int n) w) ∧
      (plain.1 = traced.1 →
        Agrees (run host source w).1 (debugRun host source (.int n) w).1)) ∧
    ∀ drive call,
      let s : Surroundings L := ⟨program, drive, call⟩
      let inner := answering program steps s.host
      let outer := answering program steps inner
      ∀ w c w₁, toComputation outer source w = (.ok c, w₁) → c < w₁.computations.next →
        (∀ m, Delegation.of? program w₁ m ≠ some c) →
        s.Alike (Watched c w₁.computations.next (.int n)) Eq steps s →
        let beside := withTracer c (.int n) w₁
        debugging inner (.computation c) (.int n) beside = run inner (.computation c) beside ∧
        SameBut program c w₁.computations.next (.int n)
          (debugging inner (.computation c) (.int n) beside)
          (debugRun outer source (.int n) w) := by
  intro host below
  refine ⟨debugging_eq (orderly_kernel modest) positive source, unwrapping_eq source, fun w => ?_,
    debugRun_unconverted host source (.int n), fun w c w₁ converted => ?_,
    fun drive call w c w₁ converted known alone alike => ?_⟩
  · have reported := (safeRun_reported host source w).1
    refine ⟨reported, fun v recorded => ?_⟩
    rw [recorded] at reported
    exact reported.isError
  · -- Each run is decided by the one drive of the source, so two drives that end alike decide
    -- alike.
    have plain := run_decided (orderly_kernel modest) converted
    have traced := debugRun_decided positive modest (orderly_kernel modest) converted
    refine ⟨watched_same c (.int n) w₁, plain, traced, fun same => ?_⟩
    have ends : Concludes (host.drive c .nil (held c w₁)).1 (run host source w).1 :=
      plain.concludes
    rw [same] at ends
    exact ends.agrees traced.concludes
  · rw [debugging_eq (orderly_answering modest) positive]
    exact ⟨rfl, sameBut_debugRun modest positive known alone alike converted⟩

namespace SmallDrive

def request : Value := .action 0 (.str "a") (.str "get") 0 []

def unanswered : World SmallSnapshot.language :=
  { memory := ()
    computations := ⟨#[{ name := "c", life := .fresh (.perform request false) }]⟩ }

theorem undelegated (m : Nat) :
    Delegation.of? SmallSnapshot.program unanswered m ≠ some 0 := by
  cases m <;> exact nofun

theorem asking_alike (c t : Nat) (limit : Value) :
    (SmallSnapshot.asking id).Alike (Watched c t limit) Eq 1 (SmallSnapshot.asking id) where
  drive _ v := by
    cases v with
    | nil => exact (Exec.matches_modify fun _ _ h => h).next fun _ => Exec.matches_pure rfl
    | _ => exact Exec.matches_pure rfl
  call _ _ := Exec.matches_pure rfl
  task _ _ := Exec.matches_pure rfl

end SmallDrive

open SmallDrive in
/-- Nobody answers the source. Even with a limit of one step a debug run ends with its action, and
the source waits there. -/
theorem drivers_agree_small :
    let host := kernel SmallSnapshot.program 1 2
    let traced := debugRun host (.computation 0) (.int 1) unanswered
    let inner := answering SmallSnapshot.program 1 (SmallSnapshot.asking id).host
    let outer := answering SmallSnapshot.program 1 inner
    (∃ e, (run host (.computation 0) unanswered).1 = .raised e ∧
      (unwrapping host (.computation 0) unanswered).1 = .raised e ∧ e.cause = .unhandled request) ∧
    (∃ e, traced.1 = .raised e ∧ e.cause = .unhandled request) ∧
    (lifeCell 0).get traced.2 = .suspended (.perform request true) ∧
    Agrees (run inner (.computation 0) (withTracer 0 (.int 1) unanswered)).1
      (debugRun outer (.computation 0) (.int 1) unanswered).1 := by
  intro host traced inner outer
  have modest : SmallSnapshot.program.Modest := fun _ _ => List.nil_subset _
  obtain ⟨-, unwraps, -, -, drives, watches⟩ :=
    drivers_agree modest 1 1 (.computation 0) (by decide : (1 : Int) ≤ 1)
  obtain ⟨-, plain, watched, -⟩ := drives unanswered 0 unanswered rfl
  obtain ⟨e, ran, cause⟩ := plain.concludes.unhandled
  obtain ⟨beside, same⟩ := watches _ _ unanswered 0 unanswered rfl (by decide) undelegated
    (asking_alike 0 1 (.int 1))
  refine ⟨⟨e, ran, (unwraps unanswered).1.trans ran, cause⟩, watched.concludes.unhandled, ?_,
    beside ▸ same.ends⟩
  refine (watched.unmoved.life 0 ?_).trans rfl
  rintro (own | delegated)
  · cases own
  · cases delegated

end World

namespace Script

/-- Scripts are modest: what they give up is among what they are asked about. -/
theorem modest_program : program.Modest := fun _ _ => List.filter_sublist.subset

end Script

end OneShot
