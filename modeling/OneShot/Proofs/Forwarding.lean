import OneShot.Proofs.Levels

/-!
# Loops that forward

As long as a table claims nothing of what a computation yields, the loop over it cannot be told from
the computation.
-/

namespace OneShot

variable {V X S : Type}

/-- The life in which a drive leaves a computation. -/
def Life.LeftBy (l : Life S) : Sight → Prop
  | .ok (.suspended _) => ∃ next, l = .suspended next
  | .ok (.completed _) => l = .finished
  | .error e => e.kind ≠ .stopIteration ∧ l = .finished

/-- A source is driven as a computation with this life: the first drive takes no value, and one
that has ended only completes. -/
structure Source.Lives (c : Nat → Source V) (life : V → Life X) : Prop where
  growing : ∀ v, Exec.Growing (c · v)
  first : ∀ {p s}, life p = .fresh s → ∀ b v, c b v p = c b .nil p
  finished : ∀ {p}, life p = .finished → ∀ b v, c b v p = (.ok (.completed .nil), p)
  left : ∀ {p v sight p'}, (life p).isRunning = false → Exec.Ends (c · v) p sight p' →
    (life p').LeftBy sight

theorem Life.LeftBy.still {l : Life S} {sight : Sight} (h : l.LeftBy sight) :
    l.isRunning = false := by
  rcases sight with e | x | r
  · rw [h.2]
    rfl
  · obtain ⟨next, rfl⟩ := h
    rfl
  · rw [show l = .finished from h]
    rfl

theorem Source.lives_ofBody {host : Host V} (mints : host.Mints)
    {body : Nat → S → Value → Exec V (Move S)}
    (growing : ∀ s v, Exec.Growing (body · s v)) :
    Lives (fun b => ofBody host.mint (body b)) Prod.snd where
  growing v := Source.growing_ofBody growing v
  first := by
    rintro ⟨w, l⟩ s rfl b v
    rfl
  finished := by
    rintro ⟨w, l⟩ rfl b v
    rfl
  left := by
    rintro ⟨w, l⟩ v sight ⟨w', l'⟩ still ⟨b, drive⟩
    obtain ⟨s, u, entry⟩ | ⟨s, rfl⟩ | rfl := l.enters_or v
    · obtain ⟨o, w₁, -, sealed, rfl⟩ := (Drives.entered_iff entry).mp (ofBody_eq.mp drive)
      match o with
      | .ok (.suspend x next) =>
        obtain ⟨rfl, -⟩ := Exec.pure_eq_of.mp sealed
        exact ⟨next, rfl⟩
      | .ok (.complete r) =>
        obtain ⟨rfl, -⟩ := Exec.pure_eq_of.mp sealed
        rfl
      | .error e =>
        obtain ⟨e', w₂, raised, kind, -⟩ := Life.seal_error (S := S) mints e w₁
        obtain ⟨ends, -⟩ := Prod.mk.inj (raised.symm.trans sealed)
        obtain rfl : .error e' = sight := Result.of_inj.mp ends
        exact ⟨kind, rfl⟩
    · cases still
    · obtain ⟨rfl, rfl, -⟩ := Drives.finished_iff.mp (ofBody_eq.mp drive)
      rfl

namespace Dispatch

theorem lives_handling {host : Host V} (mints : host.Mints) {t : Table} {c : Nat → Source V}
    (steady : ∀ v, Exec.Growing (c · v)) :
    Source.Lives (fun b => handling host t (c b) b) Prod.snd :=
  Source.lives_ofBody mints
    (@growing_advance V (fun _ => host) t c (Host.growing_const host) steady)

/-- Where a loop waits whose source is in this life and yields what is forwarded. -/
def following : Life X → Life Phase
  | .fresh _ => .fresh .start
  | .suspended _ | .running _ => .suspended .forwarding
  | .finished => .finished

section

variable {host : Host V} {t : Table} {c : Nat → Source V} {life : V → Life X} {v : Value}
  {sight : Sight} {p p' : V} {m : Life Phase}

theorem following_enters (host : Host V) (lives : Source.Lives c life)
    (still : (life p).isRunning = false) (going : life p ≠ .finished) (v : Value) :
    ∃ phase u, (following (life p)).enters? v = some (phase, u) ∧
      takeUp host phase u = pure (.proceed u) ∧ ∀ b, c b u p = c b v p := by
  cases state : life p with
  | fresh s => exact ⟨.start, .nil, rfl, rfl, fun b => (lives.first state b v).symm⟩
  | suspended s => exact ⟨.forwarding, v, rfl, rfl, fun _ => rfl⟩
  | running s =>
    rw [state] at still
    cases still
  | finished => exact absurd state going

variable (lives : Source.Lives c life) (quiet : ∀ n, host.note n = pure ())
  (still : (life p).isRunning = false)

include lives quiet still

theorem ends_forwarding
    (passes : ∀ x p', Exec.Ends (c · v) p (.ok (.suspended x)) p' → t.claim x = .unclaimed) :
    Exec.Ends (fun b => handling host t (c b) b v) (p, following (life p)) sight (p', m) ↔
      Exec.Ends (c · v) p sight p' ∧ m = following (life p') := by
  by_cases ended : life p = .finished
  · have drive (sight' : Sight) (q : V) :
        Exec.Ends (c · v) p sight' q ↔ sight' = .ok (.completed .nil) ∧ q = p := by
      simp only [Exec.Ends, lives.finished ended]
      simp [← Result.of_ok, Result.of_inj, eq_comm]
    rw [ended, following, @handling_finished V (fun _ => host) t c (Host.growing_const host)
      lives.growing, drive]
    constructor
    · rintro ⟨rfl, rfl, rfl⟩
      exact ⟨⟨rfl, rfl⟩, by rw [ended]; rfl⟩
    · rintro ⟨⟨rfl, rfl⟩, rfl⟩
      exact ⟨rfl, by rw [ended]; rfl, rfl⟩
  obtain ⟨phase, u, entry, takes, same⟩ := following_enters host lives still ended v
  have drives : Exec.Ends (c · u) p = Exec.Ends (c · v) p := by
    funext sight' q
    simp only [Exec.Ends, same]
  rw [@handling_entered V (fun _ => host) t c (Host.growing_const host) lives.growing _ m v u phase
    entry p p' sight]
  simp only [takes, Exec.ends_const, Exec.pure_eq_of]
  -- The reaction to a step that is not claimed, and the life that it leaves the loop in.
  have reacts {step : Step} {q : V} (drive : Exec.Ends (c · v) p (.ok step) q) :
      ∃ move : Move Phase, react host t step = pure (.stop move) ∧ move.step = step ∧
        Life.left (.ok move) = following (life q) := by
    have left := lives.left still drive
    cases step with
    | suspended x =>
      obtain ⟨next, state⟩ := left
      exact ⟨_, resolve_unclaimed quiet (passes x q drive), rfl, by rw [state]; rfl⟩
    | completed r => exact ⟨.complete r, rfl, rfl, by rw [show life q = .finished from left]; rfl⟩
  constructor
  · rintro ⟨d, p₀, o, p₂, ⟨rfl, rfl⟩, runs, sealed, rfl⟩
    cases runs with
    | broken drive =>
      rw [drives] at drive
      obtain ⟨kind, state⟩ := lives.left still drive
      rw [Life.seal_plain kind] at sealed
      obtain ⟨seen, rfl⟩ := Prod.mk.inj sealed
      obtain rfl := Result.of_inj.mp ((Result.of_error _).trans seen)
      exact ⟨drive, by rw [state]; rfl⟩
    | round drive reacted rest =>
      rw [drives] at drive
      obtain ⟨move, reacts, rfl, left⟩ := reacts drive
      rw [reacts, Exec.ends_const] at reacted
      obtain ⟨rfl, rfl⟩ := Exec.pure_eq_of.mp reacted
      cases rest
      obtain ⟨rfl, rfl⟩ := Exec.pure_eq_of.mp sealed
      exact ⟨drive, left⟩
  · rintro ⟨drive, rfl⟩
    rcases sight with e | step
    · obtain ⟨kind, state⟩ := lives.left still drive
      rw [← drives] at drive
      exact ⟨_, _, .error e, p', ⟨rfl, rfl⟩, .broken drive, Life.seal_plain kind host.mint p',
        by rw [state]; rfl⟩
    · obtain ⟨move, reacts, rfl, left⟩ := reacts drive
      rw [← drives] at drive
      have reacted : Exec.Ends (fun _ => react host t move.step) p' (.ok (.stop move)) p' := by
        rw [reacts, Exec.ends_const]
        rfl
      exact ⟨_, _, .ok move, p', ⟨rfl, rfl⟩, .round drive reacted .stop, rfl, left.symm⟩

end

/-! ## Sessions -/

section

variable {host : Host V} {t : Table} {c : Nat → Source V} {life : V → Life X} {p p' : V}
  {m : Life Phase} {driver : List Value} {seen : List Sight}
  (lives : Source.Lives c life) (quiet : ∀ n, host.note n = pure ())

include lives quiet

theorem shown_of_unclaimed (still : (life p).isRunning = false)
    (shown : Source.Shown c driver p seen p')
    (unclaimed : ∀ x, .ok (.suspended x) ∈ seen → t.claim x = .unclaimed) :
    (life p').isRunning = false ∧
      Source.Shown (fun b => handling host t (c b) b) driver (p, following (life p)) seen
        (p', following (life p')) := by
  induction shown with
  | nil => exact ⟨still, .nil⟩
  | cons drive _ ih =>
    obtain ⟨still', rest⟩ := ih (lives.left still drive).still
      fun x hx => unclaimed x (List.mem_cons_of_mem _ hx)
    refine ⟨still', .cons ((ends_forwarding lives quiet still ?_).mpr ⟨drive, rfl⟩) rest⟩
    intro x q other
    obtain ⟨rfl, -⟩ := (lives.growing _).unique drive other
    exact unclaimed x List.mem_cons_self

/-- A loop whose source never yields what the table claims shows a driver what its source shows. An
invariant of the source can be relied on. -/
theorem shown_forwarding (Holds : V → Prop) (still : ∀ {p}, Holds p → (life p).isRunning = false)
    (keeps : ∀ {p v sight p'}, Holds p → Exec.Ends (c · v) p sight p' → Holds p')
    (unclaimed : ∀ {p v x p'}, Holds p → Exec.Ends (c · v) p (.ok (.suspended x)) p' →
      t.claim x = .unclaimed) (holds : Holds p) :
    Source.Shown (fun b => handling host t (c b) b) driver (p, following (life p)) seen (p', m) ↔
      Source.Shown c driver p seen p' ∧ m = following (life p') := by
  induction driver generalizing p seen with
  | nil =>
    constructor
    · rintro ⟨⟩
      exact ⟨.nil, rfl⟩
    · rintro ⟨⟨⟩, rfl⟩
      exact .nil
  | cons v driver ih =>
    have drives {sight : Sight} {q : V} {k : Life Phase} :
        Exec.Ends (fun b => handling host t (c b) b v) (p, following (life p)) sight (q, k) ↔
          Exec.Ends (c · v) p sight q ∧ k = following (life q) :=
      ends_forwarding lives quiet (still holds) fun _ _ => unclaimed holds
    constructor
    · rintro (_ | ⟨drive, rest⟩)
      rename_i q _
      obtain ⟨q, k⟩ := q
      obtain ⟨source, rfl⟩ := drives.mp drive
      obtain ⟨after, rfl⟩ := (ih (keeps holds source)).mp rest
      exact ⟨.cons source after, rfl⟩
    · rintro ⟨_ | ⟨drive, rest⟩, rfl⟩
      exact .cons (drives.mpr ⟨drive, rfl⟩) ((ih (keeps holds drive)).mpr ⟨rest, rfl⟩)

end

end Dispatch

end OneShot
