import OneShot.Proofs.DebugRuns
import OneShot.Proofs.Surroundings

/-!
# Sources that are watched

The drive of a source in a debug run differs from that in a plain run in what is in progress around
it. No service of the world shows that. So a source that stands among drives, calls and user code
that do not tell the difference does the same in both runs.
-/

namespace OneShot.World

open Exec (Matches matches_modify matches_alter)

variable {L : Language}

/-! ## What is in progress -/

/-- The world with other drives and evaluations in progress. -/
def amid (drives : List Nat) (pending : List Value) (w : World L) : World L :=
  { w with drives, pending }

section

variable (drives : List Nat) (pending : List Value) (w : World L)

theorem within_amid (depth : Nat) :
    (w.amid drives pending).inspectWithin depth = w.inspectWithin depth ∧
      (w.amid drives pending).displayWithin depth = w.displayWithin depth := by
  induction depth with
  | zero => exact ⟨rfl, rfl⟩
  | succ depth ih =>
    obtain ⟨inspect, display⟩ := ih
    constructor
    · funext inside v
      unfold inspectWithin
      rw [inspect, display]
      rfl
    · funext inside v
      unfold displayWithin
      rw [inspect, display]

theorem inspect_amid : (w.amid drives pending).inspect = w.inspect := by
  funext v
  rw [inspect, (within_amid drives pending w _).1, inspect]

theorem display_amid : (w.amid drives pending).display = w.display := by
  funext v
  rw [display, (within_amid drives pending w _).2, display]

theorem snapshot?_amid : (w.amid drives pending).snapshot? = w.snapshot? := by
  have within (depth : Nat) :
      (w.amid drives pending).snapshotWithin depth = w.snapshotWithin depth := by
    induction depth with
    | zero => rfl
    | succ depth ih =>
      funext v
      unfold snapshotWithin errorText
      rw [ih, display_amid]
      rfl
  funext v
  rw [snapshot?, within, snapshot?]

theorem argumentOf_amid (cause : Cause Value) :
    (w.amid drives pending).argumentOf cause = w.argumentOf cause := by
  unfold argumentOf
  rw [inspect_amid, display_amid]

theorem eventOf_amid (n : Note) : (w.amid drives pending).eventOf n = w.eventOf n := by
  unfold eventOf eventOf.labelOf
  rw [inspect_amid, display_amid, snapshot?_amid]

theorem set_lifeCell_amid (n : Nat) (life : Life (Body L)) :
    (lifeCell n).set life (w.amid drives pending) =
      ((lifeCell n).set life w).amid drives pending := by
  simp only [lifeCell, amid]
  cases w.computations.get? n <;> rfl

end

/-! ## Worlds that differ in what is in progress -/

variable {program : Program L} {steps c t : Nat} {n : Int} {limit source : Value}
  {w w' w₁ : World L}

/-- The same world but for what is in progress. The tracer `t` runs in both. Only in the second one
it drives its source `c`, and a run holds it in place of that. -/
structure Watched (c t : Nat) (limit : Value) (w w' : World L) : Prop where
  runs : (lifeCell t).get w = .running (tracer c limit)
  same : ∃ drives before pending held, w.drives = drives ++ c :: before ∧
    w.pending = pending ++ .computation c :: held ∧
    w' = w.amid (drives ++ c :: t :: before) (pending ++ .computation t :: held)

namespace Watched

theorem eq {α : Type} (h : Watched c t limit w w') (f : World L → α)
    (hf : ∀ drives pending, f (w.amid drives pending) = f w) : f w = f w' := by
  obtain ⟨drives, before, pending, held, -, -, rfl⟩ := h.same
  exact (hf _ _).symm

theorem change (h : Watched c t limit w w') (f : World L → World L)
    (hf : ∀ drives pending, f (w.amid drives pending) = (f w).amid drives pending)
    (drives : (f w).drives = w.drives) (pending : (f w).pending = w.pending)
    (life : (lifeCell t).get (f w) = (lifeCell t).get w) : Watched c t limit (f w) (f w') := by
  obtain ⟨front, before, first, held, hd, hp, rfl⟩ := h.same
  exact ⟨life.trans h.runs, front, before, first, held, drives.trans hd, pending.trans hp, hf _ _⟩

theorem unnoticed : Unnoticed (Watched (L := L) c t limit) Eq where
  nextId h := h.eq _ fun _ _ => rfl
  tokens h := h.eq _ fun _ _ => rfl
  effects h := h.eq _ fun _ _ => rfl
  found h v name := h.eq (fun w => w.attribute? v name) fun _ _ => by
    unfold attribute?
    rfl
  missing h v name := h.eq (fun w => w.missingAttribute v name) fun _ _ => by
    unfold missingAttribute
    rfl
  setIds h nextId := h.change (fun w => { w with nextId }) (fun _ _ => rfl) rfl rfl rfl
  setTokens h tokens := h.change (fun w => { w with tokens }) (fun _ _ => rfl) rfl rfl rfl
  setEffects h effects := h.change (fun w => { w with effects }) (fun _ _ => rfl) rfl rfl rfl
  note n := matches_modify fun w w' h => by
    refine h.change (fun w => if w.logging then w.addEvent (w.eventOf n) else w)
      (fun drives pending => ?_) ?_ ?_ ?_
    · rw [eventOf_amid]
      by_cases logging : w.logging
      · rw [if_pos logging, if_pos (show (w.amid drives pending).logging from logging)]
        rfl
      · rw [if_neg logging, if_neg (show ¬(w.amid drives pending).logging from logging)]
    all_goals split <;> rfl
  mint cause := matches_alter fun w w' h => by
    have text := h.eq (fun w => w.argumentOf cause) fun _ _ => argumentOf_amid _ _ w cause
    have id := h.eq nextId fun _ _ => rfl
    refine ⟨?_, h.change (fun w => (w.takeIds 1).2) (fun _ _ => rfl) rfl rfl rfl⟩
    simp only [takeIds, text, id]

theorem alike_lifeCell (other : c ≠ t) :
    Cell.Alike (Watched c t limit) (lifeCell c : Cell (World L) (Life (Body L))) (lifeCell c) where
  get _ _ h := h.eq _ fun _ _ => rfl
  set life w _ h := by
    refine h.change _ (fun drives pending => set_lifeCell_amid drives pending w c life) ?_ ?_ ?_
    · simp only [lifeCell]
      split <;> rfl
    · simp only [lifeCell]
      split <;> rfl
    · exact (Unmoved.set_self c life w).life t other.symm

end Watched

/-! ## Runs of a watched source -/

/-- Two runs of the source `c`, the second one with the tracer `t` around it, have done the same.
Afterwards only those can have been given up that are delegated to one of the two. -/
structure SameBut (program : Program L) (c t : Nat) (limit : Value)
    (plain traced : Result Value × World L) : Prop where
  ends : Agrees plain.1 traced.1
  worlds : ∃ w w', Watched c t limit w w' ∧
    Unmoved (fun m => Delegation.of? program w m = some c) w plain.2 ∧
    Unmoved (fun m => m = t ∨ Delegation.of? program w m = some c ∨
      Delegation.of? program w m = some t) w' traced.2

section

variable (c limit w)

theorem next_addComputation (name : String) (body : Body L) :
    (w.addComputation name body).2.computations.next = w.computations.next + 1 := by
  cases source : body.source? with
  | none => simp only [addComputation, source, Pool.next_add]
  | some n =>
    simp only [addComputation, source, addWrapper]
    split <;> simp only [Pool.next_set, Pool.next_add]

theorem life_withTracer :
    (lifeCell w.computations.next).get (withTracer c limit w) = .running (tracer c limit) :=
  life_set (by rw [next_addComputation]; exact Nat.lt_succ_self _) _

theorem life_withTracer_of_ne {m : Nat} (other : m ≠ w.computations.next) :
    (lifeCell m).get (withTracer c limit w) = (lifeCell m).get w := by
  refine ((Unmoved.set_self _ _ _).life m other).trans ?_
  obtain old | new := Nat.lt_or_ge m w.computations.next
  · exact life_addComputation_of_lt _ _ old
  · have next := next_addComputation w "_traced" (tracer c limit)
    have unknown : (w.addComputation "_traced" (tracer c limit)).2.computations.next ≤ m := by omega
    simp only [lifeCell, Pool.get?_of_next_le unknown, Pool.get?_of_next_le new]

theorem addComputation_eq (name : String) (body : Body L) :
    ∃ computations, (w.addComputation name body).2 = { w with computations } := by
  cases source : body.source? with
  | none =>
    simp only [addComputation, source]
    exact ⟨_, rfl⟩
  | some n =>
    simp only [addComputation, source, addWrapper]
    split <;> exact ⟨_, rfl⟩

theorem withTracer_eq : ∃ computations, withTracer c limit w = { w with computations } := by
  obtain ⟨computations, made⟩ := addComputation_eq w "_traced" (tracer c limit)
  simp only [withTracer, made, lifeCell]
  split <;> exact ⟨_, rfl⟩

theorem watched_eq : watched c limit w = (withTracer c limit w).amid
    (w.computations.next :: w.drives) (.computation w.computations.next :: w.pending) := by
  obtain ⟨computations, made⟩ := addComputation_eq w "_traced" (tracer c limit)
  rw [watched, withTracer, ← set_lifeCell_amid, made]
  rfl

theorem owners_withTracer (alone : ∀ m, Delegation.of? program w m ≠ some c) (drives : List Nat)
    (pending : List Value) :
    Delegation.owners program ((withTracer c limit w).amid drives pending) c = [] := by
  refine List.eq_nil_iff_forall_not_mem.mpr fun m mem => ?_
  have delegated : Delegation.of? program (withTracer c limit w) m = some c :=
    delegated_of_mem_owners mem
  by_cases own : m = w.computations.next
  · rw [own, Delegation.of?, life_withTracer] at delegated
    cases delegated
  · rw [Delegation.of?, life_withTracer_of_ne c limit w own] at delegated
    exact alone m delegated

variable {c limit w} (alone : ∀ m, Delegation.of? program w m ≠ some c)

include alone

theorem begun_withTracer : begun program c (held c (withTracer c limit w)) =
    (withTracer c limit w).amid (c :: w.drives) (.computation c :: w.pending) := by
  let beside := withTracer c limit w
  obtain ⟨computations, made⟩ := withTracer_eq c limit w
  have drives : beside.drives = w.drives := by simp only [beside, made]
  have pending : beside.pending = w.pending := by simp only [beside, made]
  have owners := owners_withTracer c limit w alone beside.drives (.computation c :: beside.pending)
  refine (begun_alone owners).trans ?_
  simp only [amid, ← drives, ← pending]

theorem begun_watched : begun program c (watched c limit w) =
    (withTracer c limit w).amid (c :: w.computations.next :: w.drives)
      (.computation w.computations.next :: w.pending) := by
  rw [watched_eq, begun_alone (owners_withTracer c limit w alone _ _)]
  rfl

end

variable {drive : Nat → Value → Exec (World L) Step}
  {call : Value → List Value → Exec (World L) Value}

/-- The source is driven to the same end, whether a run does that or a tracer. -/
theorem drive_watched (modest : program.Modest) (known : c < w.computations.next)
    (alone : ∀ m, Delegation.of? program w m ≠ some c)
    (alike : Surroundings.Alike (Watched c w.computations.next limit) Eq steps
      ⟨program, drive, call⟩ ⟨program, drive, call⟩) :
    let host := answering program steps (World.host drive call)
    ∃ r p q u u', host.drive c .nil (held c (withTracer c limit w)) = (r, p) ∧
      host.drive c .nil (watched c limit w) = (r, q) ∧
      Watched c w.computations.next limit u u' ∧
      Unmoved (fun m => Delegation.of? program u m = some c) u p ∧
      Unmoved (fun m => Delegation.of? program u' m = some c) u' q := by
  intro host
  let t := w.computations.next
  let s : Surroundings L := ⟨program, drive, call⟩
  -- The two worlds in which the body of the source goes on.
  let here := (withTracer c limit w).amid (c :: w.drives) (.computation c :: w.pending)
  let there := (withTracer c limit w).amid (c :: t :: w.drives) (.computation t :: w.pending)
  have watches : Watched c t limit here there :=
    ⟨life_withTracer c limit w, [], w.drives, [], w.pending, rfl, rfl, rfl⟩
  obtain ⟨same, left⟩ := alike.computation Watched.unnoticed (congrArg ErrorOf.kind)
    (Watched.alike_lifeCell (Nat.ne_of_lt known)) .nil here there watches
  rcases bare : s.computation steps c .nil here with ⟨r, u⟩
  rcases bare' : s.computation steps c .nil there with ⟨r', u'⟩
  rw [bare, bare'] at same left
  obtain rfl := Result.matches_eq.mp same
  let body := bareDrive program (World.host drive call) steps c .nil
  obtain ⟨p, driven, moved⟩ := drive_of_bare ((congrArg body (begun_withTracer alone)).trans bare)
  obtain ⟨q, driven', moved'⟩ := drive_of_bare ((congrArg body (begun_watched alone)).trans bare')
  exact ⟨r, p, q, u, u', driven, driven', left, moved modest, moved' modest⟩

/-- A source that does not tell whether it is watched does the same in a debug run as in a run of
its own next to the tracer. -/
theorem sameBut_debugRun (modest : program.Modest) (positive : 1 ≤ n)
    (known : c < w.computations.next) (alone : ∀ m, Delegation.of? program w m ≠ some c)
    (alike : Surroundings.Alike (Watched c w.computations.next (.int n)) Eq steps
      ⟨program, drive, call⟩ ⟨program, drive, call⟩) {w₀ : World L} :
    let host := answering program steps (World.host drive call)
    toComputation (answering program steps host) source w₀ = (.ok c, w) →
      SameBut program c w.computations.next (.int n)
        (run host (.computation c) (withTracer c (.int n) w))
        (debugRun (answering program steps host) source (.int n) w₀) := by
  intro host converted
  let t := w.computations.next
  obtain ⟨r, p, q, u, u', driven, driven', left, moved, moved'⟩ :=
    drive_watched modest known alone alike
  have given : toComputation host (.computation c) (withTracer c (.int n) w) = (.ok c, _) := rfl
  have plain : DecidedBy program c (fun _ => False)
      (host.drive c .nil (held c (withTracer c (.int n) w)))
      (run host (.computation c) (withTracer c (.int n) w)) :=
    run_decided (orderly_answering modest) given
  have traced : DecidedBy program c
      (OfTracer program t (host.drive c .nil (watched c (.int n) w)).2)
      (host.drive c .nil (watched c (.int n) w))
      (debugRun (answering program steps host) source (.int n) w₀) :=
    debugRun_decided positive modest (orderly_answering modest) converted
  rw [driven] at plain
  rw [driven'] at traced
  have delegated (m : Nat) : Delegation.of? program u' m = Delegation.of? program u m :=
    (left.eq (Delegation.of? program · m) fun _ _ => rfl).symm
  refine ⟨plain.concludes.agrees traced.concludes, u, u', left,
    moved.trans (plain.unmoved.mono fun _ => False.elim), ?_⟩
  simp only [delegated] at moved'
  refine (moved'.mono fun m own => .inr (.inl own)).trans (traced.unmoved.mono fun m mine => ?_)
  -- Those that are delegated to the tracer now either were so before or have just been given up.
  obtain own | mine := mine
  · exact .inl own
  by_cases own : Delegation.of? program u m = some c
  · exact .inr (.inl own)
  · rw [Delegation.of?, moved'.life m own] at mine
    exact .inr (.inr ((delegated m).symm.trans mine))

end OneShot.World
