import OneShot.Kernel
import OneShot.Proofs.Driving

/-!
# Around a drive

What the kernel attends to before and after a drive. It does not change how the drive ends, and it
moves no computation but those that are delegated to the one that was driven.
-/

namespace OneShot

theorem Pool.next_set {α : Type} (p : Pool α) (id : Nat) (a : α) : (p.set id a).next = p.next := by
  simp [next, set]

namespace Life

variable {W S : Type} {host : Host W} {cell : Cell W (Life S)} {body : S → Value → Exec W (Move S)}

theorem plain_drive (mints : host.Mints) {v : Value} {e : Error} {w w' : W}
    (raised : drive host.mint cell body v w = (.raised e, w')) : e.kind ≠ .stopIteration := by
  obtain ⟨s, u, entry⟩ | ⟨s, life⟩ | life := enters_or (cell.get w) v
  · have ended : drive host.mint cell body v w = (.of (.error e), w') := raised
    obtain ⟨o, w₁, -, sealed⟩ := (entered_eq entry).mp ended
    cases o with
    | ok move => cases sealed
    | error e₀ =>
      obtain ⟨e', w₂, seals, plain, -⟩ :=
        seal_error (S := S) mints e₀ (cell.set (left (.error e₀)) w₁)
      obtain ⟨⟨⟩, -⟩ := Prod.mk.inj (seals.symm.trans sealed)
      exact plain
  · obtain ⟨e', w₂, minted, cause⟩ := mints (.refused .running) w
    rw [drive_running life, Exec.bind_ok minted] at raised
    obtain ⟨⟨⟩, -⟩ := Prod.mk.inj raised
    simp [ErrorOf.kind, cause, Cause.kind, Refusal.kind]
  · rw [drive_finished life] at raised
    cases raised

theorem drive_suspended (mints : host.Mints) {v x : Value} {w w' : W}
    (suspended : drive host.mint cell body v w = (.ok (.suspended x), w')) :
    ∃ s u w₀ next w₁, body s u w₀ = (.ok (.suspend x next), w₁) ∧
      w' = cell.set (.suspended next) w₁ := by
  obtain ⟨s, u, entry⟩ | ⟨s, life⟩ | life := enters_or (cell.get w) v
  · have ended : drive host.mint cell body v w = (.of (.ok (.suspended x)), w') := suspended
    obtain ⟨o, w₁, moves, sealed⟩ := (entered_eq entry).mp ended
    rcases o with e | ⟨y, next⟩ | r
    · obtain ⟨e', ⟨⟩⟩ := error_of_seal mints sealed
    · cases sealed
      exact ⟨s, u, _, next, w₁, moves, rfl⟩
    · cases sealed
  · obtain ⟨e', w₂, minted, -⟩ := mints (.refused .running) w
    rw [drive_running life, Exec.bind_ok minted] at suspended
    cases suspended
  · rw [drive_finished life] at suspended
    cases suspended

theorem enter_plain (mint : Cause Value → Exec W Error) {s : S} {v : Value} {w w₁ : W}
    {r : Result (Move S)}
    (run : body s v (cell.set (.running s) w) = (r, w₁))
    (plain : ∀ e, r = .raised e → e.kind ≠ .stopIteration) :
    enter mint cell body s v w = (r.map Move.step, cell.set (after r) w₁) := by
  cases r with
  | ok move => exact enter_ended _ (o := .ok move) run
  | raised e =>
    have sealed := enter_ended mint (o := .error e) run
    rwa [Life.seal_plain (plain e rfl)] at sealed
  | exhausted => exact enter_exhausted _ run

end Life

/-- Whether an event is the record of a tracer. -/
def Event.isTrace : Event → Bool
  | .traced .. => true
  | _ => false

/-- A program gives up only what it is asked about. -/
def Program.Modest {L : Language} (program : Program L) : Prop :=
  ∀ w computations, program.lost w computations ⊆ computations

namespace World

variable {L : Language} {but : Nat → Prop} {m n : Nat} {w w' w₁ w₂ : World L}

/-! ## Computations that stay as they are -/

/-- Nothing has happened but what the runtime notes for itself and what tracers record. -/
structure Uneventful (w w' : World L) : Prop where
  same : ∃ computations nextId ended drives pending carried events,
    w' = { w with computations, nextId, ended, drives, pending, carried, events }
  events : w'.events.filter (!·.isTrace) = w.events.filter (!·.isTrace)

theorem Uneventful.noted {w : World L} {computations : Pool (Computation L)} {nextId : Nat}
    {ended : Multimap (Body L)} {drives : List Nat} {pending : List Value}
    {carried : Multimap Value} :
    Uneventful w { w with computations, nextId, ended, drives, pending, carried } :=
  ⟨⟨_, _, _, _, _, _, _, rfl⟩, rfl⟩

theorem Uneventful.refl (w : World L) : Uneventful w w := .noted

theorem Uneventful.trans (h : Uneventful w w₁) (h' : Uneventful w₁ w₂) : Uneventful w w₂ := by
  obtain ⟨_, _, _, _, _, _, _, rfl⟩ := h.same
  obtain ⟨_, _, _, _, _, _, _, rfl⟩ := h'.same
  exact ⟨⟨_, _, _, _, _, _, _, rfl⟩, h'.events.trans h.events⟩

/-- Nothing has happened, and the same computations are there, in the same states except for some of
them. -/
structure Unmoved (but : Nat → Prop) (w w' : World L) : Prop where
  uneventful : Uneventful w w'
  next : w'.computations.next = w.computations.next
  life : ∀ m, ¬ but m → (lifeCell m).get w' = (lifeCell m).get w

theorem life_replace {c c' : Computation L} (known : w.computations.get? n = some c)
    (same : c'.life = c.life) (m : Nat) :
    (lifeCell m).get { w with computations := w.computations.set n c' } = (lifeCell m).get w := by
  by_cases h : n = m
  · subst h
    simp only [lifeCell, Pool.get?_set_self known, known, same]
  · simp only [lifeCell, Pool.get?_set_of_ne _ _ h]

namespace Unmoved

theorem refl (but : Nat → Prop) (w : World L) : Unmoved but w w := ⟨.refl w, rfl, fun _ _ => rfl⟩

theorem trans (h : Unmoved but w w₁) (h' : Unmoved but w₁ w₂) : Unmoved but w w₂ :=
  ⟨h.uneventful.trans h'.uneventful, h'.next.trans h.next,
    fun m apart => (h'.life m apart).trans (h.life m apart)⟩

theorem mono {but' : Nat → Prop} (h : Unmoved but w w') (sub : ∀ m, but m → but' m) :
    Unmoved but' w w' :=
  ⟨h.uneventful, h.next, fun m apart => h.life m fun b => apart (sub m b)⟩

theorem of_uneventful (uneventful : Uneventful w w') (same : w'.computations = w.computations) :
    Unmoved but w w' :=
  ⟨uneventful, congrArg Pool.next same, fun m _ => by simp only [lifeCell, same]⟩

theorem replace {c c' : Computation L} (known : w.computations.get? n = some c)
    (same : c'.life = c.life) :
    Unmoved but w { w with computations := w.computations.set n c' } :=
  ⟨.noted, Pool.next_set _ _ _, fun m _ => life_replace known same m⟩

theorem set (h : but n) (life : Life (Body L)) (w : World L) :
    Unmoved but w ((lifeCell n).set life w) := by
  cases found : w.computations.get? n with
  | none => simpa only [lifeCell, found] using refl but w
  | some c =>
    simp only [lifeCell, found]
    refine ⟨.noted, Pool.next_set _ _ _, fun m apart => ?_⟩
    have other : n ≠ m := by
      rintro rfl
      exact apart h
    simp only [lifeCell, Pool.get?_set_of_ne _ _ other]

theorem set_self (n : Nat) (life : Life (Body L)) (w : World L) :
    Unmoved (fun m => m = n) w ((lifeCell n).set life w) := by
  refine .set ?_ life w
  rfl

theorem finish (owners : List Nat) (w : World L) (h : ∀ o ∈ owners, but o) :
    Unmoved but w (owners.foldl (fun w o => (lifeCell o).set .finished w) w) := by
  induction owners generalizing w with
  | nil => exact refl but w
  | cons o owners ih =>
    rw [List.forall_mem_cons] at h
    exact (set h.1 _ w).trans (ih _ h.2)

end Unmoved

theorem next_set (n : Nat) (life : Life (Body L)) (w : World L) :
    ((lifeCell n).set life w).computations.next = w.computations.next :=
  (Unmoved.set_self n life w).next

theorem life_set (known : n < w.computations.next) (life : Life (Body L)) :
    (lifeCell n).get ((lifeCell n).set life w) = life := by
  obtain ⟨c, found⟩ : ∃ c, w.computations.get? n = some c :=
    ⟨_, Array.getElem?_eq_getElem known⟩
  simp only [lifeCell, found, Pool.get?_set_self found]

theorem uneventful_addComputation (name : String) (body : Body L) (w : World L) :
    Uneventful w (w.addComputation name body).2 := by
  cases source : body.source? with
  | none =>
    simp only [addComputation, source]
    exact .noted
  | some c =>
    simp only [addComputation, source, addWrapper]
    split <;> exact .noted

/-! ## What is attended to -/

variable {program : Program L}

theorem delegated_of_mem_owners (h : m ∈ Delegation.owners program w n) :
    Delegation.of? program w m = some n := by
  simp only [Delegation.owners] at h
  cases found : w.computations.get? n with
  | none => simp [found] at h
  | some c =>
    rw [found] at h
    exact of_decide_eq_true (List.mem_filter.mp h).2

theorem unmoved_noteOwner (n : Nat) (w : World L) :
    Unmoved but w (Delegation.noteOwner program n w).2 := by
  simp only [Delegation.noteOwner, Exec.modify]
  cases Delegation.of? program w n with
  | none => exact .refl but w
  | some computation =>
    simp only
    cases found : w.computations.get? computation with
    | none => exact .refl but w
    | some c =>
      simp only
      split
      · exact .refl but w
      · exact .replace found rfl

theorem lost_subset (modest : program.Modest) (w : World L) (computations : List Nat) :
    Delegation.lost program w computations ⊆ computations := by
  simp only [Delegation.lost]
  split
  · exact List.nil_subset _
  · exact List.Subset.trans (modest w _) List.filter_sublist.subset

/-- The world in which a computation is driven, once it has turned out whether it is closed. -/
def begun (program : Program L) (n : Nat) (w : World L) : World L :=
  { (Delegation.settle program n w).2 with
    drives := n :: (Delegation.settle program n w).2.drives }

theorem owners_new (name : String) (body : Body L) (w : World L) :
    Delegation.owners program (w.addComputation name body).2 w.computations.next = [] := by
  obtain ⟨x, known, alone⟩ : ∃ x, (w.addComputation name body).2.computations.get?
      w.computations.next = some x ∧ x.delegators = [] := by
    have added := w.computations.get?_next { name, life := .fresh body }
    cases source : body.source? with
    | none => exact ⟨_, by simpa only [addComputation, source] using added, rfl⟩
    | some c =>
      simp only [addComputation, source, addWrapper]
      cases found : (w.computations.add { name, life := .fresh body }).2.get? c with
      | none => exact ⟨_, added, rfl⟩
      | some x =>
        simp only
        by_cases same : c = w.computations.next
        · subst same
          obtain rfl := Option.some.inj (added.symm.trans found)
          exact ⟨_, Pool.get?_set_self found _, rfl⟩
        · exact ⟨_, (Pool.get?_set_of_ne _ _ same).trans added, rfl⟩
  simp only [Delegation.owners, known, alone, List.filter_nil]

theorem begun_alone (alone : Delegation.owners program w n = []) :
    begun program n w = { w with drives := n :: w.drives } := by
  simp only [begun, Delegation.settle, Exec.modify, alone]
  rfl

/-- Nothing that is attended to can fail, so the drive ends as it does by itself. Afterwards only
those that are delegated to the computation can have been given up. -/
theorem attend_of {drive : Exec (World L) Step} {r : Result Step}
    (run : drive (begun program n w) = (r, w₁)) :
    ∃ w', Delegation.attend program n drive w = (r, w') ∧ (program.Modest →
      Unmoved (fun m => Delegation.of? program w₁ m = some n) w₁ w') := by
  obtain ⟨w₀, settled⟩ : ∃ w₀, Delegation.settle program n w = (.ok (), w₀) := ⟨_, rfl⟩
  simp only [begun, settled] at run
  let back : World L := { w₁ with drives := w₀.drives }
  have driven : Delegation.inDrive n drive w₀ = (.ok r, back) := by
    simp only [Delegation.inDrive, Bind.bind, Exec.bind, Exec.read, Exec.modify, Exec.attempt, run]
    rfl
  let lost := Delegation.lost program back (Delegation.owners program back n)
  let released := lost.foldl (fun w o => (lifeCell o).set .finished w) back
  have unmoved (modest : program.Modest) :
      Unmoved (fun m => Delegation.of? program w₁ m = some n) w₁ released := by
    have same : Unmoved (fun m => Delegation.of? program w₁ m = some n) w₁ back :=
      .of_uneventful .noted rfl
    refine same.trans (.finish lost back fun o given => ?_)
    exact delegated_of_mem_owners (lost_subset modest back _ given)
  rw [Delegation.attend, Exec.bind_ok settled, Exec.bind_ok (rfl : Exec.read _ w₀ = _),
    Exec.bind_ok driven, Exec.bind_ok (rfl : Delegation.release program n back = _)]
  have noted (e : Error) : Unmoved (fun m => Delegation.of? program w₁ m = some n) released
      (Delegation.noteEnd e ((lifeCell n).get w₀).waiting? released).2 :=
    .of_uneventful .noted rfl
  cases r with
  | ok step => exact ⟨_, rfl, fun modest => (unmoved modest).trans (unmoved_noteOwner n released)⟩
  | raised e => exact ⟨_, rfl, fun modest => (unmoved modest).trans (noted e)⟩
  | exhausted => exact ⟨released, rfl, unmoved⟩

/-! ## Drives that are attended to -/

theorem mints_host (drive : Nat → Value → Exec (World L) Step)
    (call : Value → List Value → Exec (World L) Value) : (World.host drive call).Mints :=
  fun _ _ => ⟨_, _, rfl, rfl⟩

theorem mints_world :
    (World.host (fun _ _ => Exec.exhausted) fun _ _ => Exec.exhausted : Host (World L)).Mints :=
  mints_host _ _

/-- The services of a world in which requests are answered with a host for all that they lead
to. -/
def answering (program : Program L) (steps : Nat) (host : Host (World L)) : Host (World L) :=
  World.host (fun n v => answer program host steps (.drive n v))
    fun f arguments => answer program host steps (.call f arguments)

/-- What the body of a computation does in a drive, without what is attended to. -/
def bareDrive (program : Program L) (host : Host (World L)) (steps n : Nat) (v : Value) :
    Exec (World L) Step :=
  Life.drive mint (lifeCell n) (moveBody program host steps) v

variable {host : Host (World L)} {steps depth : Nat} {v : Value} {r : Result Step}

theorem drive_of_bare (bare : bareDrive program host steps n v (begun program n w) = (r, w₁)) :
    ∃ w', (answering program steps host).drive n v w = (r, w') ∧ (program.Modest →
      Unmoved (fun m => Delegation.of? program w₁ m = some n) w₁ w') := attend_of bare

theorem bare_of_drive (driven : (answering program steps host).drive n v w = (r, w')) :
    ∃ w₁, bareDrive program host steps n v (begun program n w) = (r, w₁) ∧ (program.Modest →
      Unmoved (fun m => Delegation.of? program w₁ m = some n) w₁ w') := by
  rcases bare : bareDrive program host steps n v (begun program n w) with ⟨r', w₁⟩
  obtain ⟨w₂, attended, unmoved⟩ := drive_of_bare bare
  obtain ⟨rfl, rfl⟩ := Prod.mk.inj (attended.symm.trans driven)
  exact ⟨w₁, rfl, unmoved⟩

/-- Where a body waits that has suspended with an action. -/
def WaitsAt (program : Program L) (x : Value) (body : Body L) : Prop :=
  ∃ host bound s v w w', moveBody program host bound s v w = (.ok (.suspend x body), w')

/-- What can be relied on whenever something is driven. -/
structure Orderly (program : Program L) (host : Host (World L)) : Prop where
  /-- No end of iteration comes out. -/
  plain : ∀ {n v w e w'}, host.drive n v w = (.raised e, w') → e.kind ≠ .stopIteration
  /-- A computation that suspends waits, unless it is delegated to itself. -/
  waits : ∀ {n v w x w'}, host.drive n v w = (.ok (.suspended x), w') →
    n < w'.computations.next → ∃ body, WaitsAt program x body ∧
      ((lifeCell n).get w' = .suspended body ∨ Delegation.delegate? program body = some n)

variable (modest : program.Modest)

include modest

theorem orderly_answering : Orderly program (answering program steps host) where
  plain driven := by
    obtain ⟨w₁, bare, -⟩ := bare_of_drive driven
    exact Life.plain_drive mints_world bare
  waits {n _ _ x w'} driven known := by
    obtain ⟨w₁, bare, unmoved⟩ := bare_of_drive driven
    obtain ⟨s, u, w₀, body, w₂, moves, rfl⟩ := Life.drive_suspended mints_world bare
    have unmoved := unmoved modest
    have left : (lifeCell n).get ((lifeCell n).set (.suspended body) w₂) = .suspended body := by
      refine life_set ?_ _
      rwa [unmoved.next, next_set] at known
    refine ⟨body, ⟨_, _, s, u, w₀, w₂, moves⟩, ?_⟩
    by_cases itself : Delegation.delegate? program body = some n
    · exact .inr itself
    · refine .inl ((unmoved.life n ?_).trans left)
      rwa [Delegation.of?, left]

theorem orderly_kernel : Orderly program (kernel program steps depth) := by
  cases depth with
  | zero => exact ⟨fun driven => (nomatch driven), fun driven => (nomatch driven)⟩
  | succ depth => exact orderly_answering modest

end World

end OneShot
