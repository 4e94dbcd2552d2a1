import OneShot.Proofs.Loop

/-!
# Two loops, one over the other

A handled computation is handled again. The two loops take turns: the outer one drives, the inner
one runs until it stops, and the outer one reacts. `Levels` follows both at once.
-/

namespace OneShot.Dispatch

variable {W : Type}

/-- The computation that handles a source with `A` and the result of that with `B`. -/
def nested (host : Host W) (A B : Table) (c : Source W) (bound : Nat) :
    Source ((W × Life Phase) × Life Phase) :=
  handling host.beside B (handling host A c bound) bound

/-- Which of the loops goes on. -/
inductive Level where
  | inner (d : Except Error Decision)
  /-- The inner loop waits. -/
  | outer (inner : Life Phase) (d : Except Error Decision)

/-- How both loops go on. The end is that of the outer loop, with the life of the inner one. -/
inductive Levels (host : Host W) (A B : Table) (c : Source W) :
    Level → W → Except Error (Move Phase) → Life Phase → W → Prop where
  | innerFailed {e w e' w'}
      (sealed : Life.seal host.mint (.error e : Except Error (Move Phase)) w = (.raised e', w')) :
      Levels host A B c (.inner (.error e)) w (.error e') .finished w'
  | innerBroken {v w e w₁ o l w'} (drive : c v w = (.raised e, w₁))
      (rest : Levels host A B c (.inner (.error e)) w₁ o l w') :
      Levels host A B c (.inner (.ok (.proceed v))) w o l w'
  | innerRound {v w step w₁ d w₂ o l w'} (drive : c v w = (.ok step, w₁))
      (reacts : react host A step w₁ = (.of d, w₂))
      (rest : Levels host A B c (.inner d) w₂ o l w') :
      Levels host A B c (.inner (.ok (.proceed v))) w o l w'
  | completes {r w} :
      Levels host A B c (.inner (.ok (.stop (.complete r)))) w (.ok (.complete r)) .finished w
  | yields {x phase w d w₁ o l w'} (reacts : resolve host B x w = (.of d, w₁))
      (rest : Levels host A B c (.outer (.suspended phase) d) w₁ o l w') :
      Levels host A B c (.inner (.ok (.stop (.suspend x phase)))) w o l w'
  | failed {l e w} : Levels host A B c (.outer l (.error e)) w (.error e) l w
  | stops {l move w} : Levels host A B c (.outer l (.ok (.stop move))) w (.ok move) l w
  | drives {l v phase u w d w₁ o l' w'} (entry : l.enters? v = some (phase, u))
      (taken : takeUp host phase u w = (.of d, w₁))
      (rest : Levels host A B c (.inner d) w₁ o l' w') :
      Levels host A B c (.outer l (.ok (.proceed v))) w o l' w'

section

variable {host : Host W} {A B : Table} {c : Source W}

theorem Levels.inner_of_runs {d : Except Error Decision} {w w₁ w' : W}
    {o₁ o : Except Error (Move Phase)} {l : Life Phase}
    (h : Runs (fun _ => host) A (fun _ => c) d w o₁ w₁)
    (rest : Levels host A B c (.inner (o₁.map .stop)) w₁ o l w') :
    Levels host A B c (.inner d) w o l w' := by
  induction h with
  | failed => exact rest
  | stop => exact rest
  | broken drive => exact .innerBroken (Exec.ends_const.mp drive) rest
  | round drive reacts _ ih =>
    exact .innerRound (Exec.ends_const.mp drive) (Exec.ends_const.mp reacts) (ih rest)

theorem growing_nested (v : Value) : Exec.Growing fun b => nested host A B c b v :=
  @growing_handling (W × Life Phase) (fun _ => host.beside) B (handling host A c)
    (Host.growing_const _) steady_handling v

/-- The inner loop can be driven: it has not begun, or it is suspended. -/
def Drivable (l : Life Phase) : Prop := ∀ v, (l.enters? v).isSome

theorem drivable_fresh (phase : Phase) : Drivable (.fresh phase) := fun _ => rfl

theorem drivable_suspended (phase : Phase) : Drivable (.suspended phase) := fun _ => rfl

variable (mints : host.Mints)

include mints

theorem levels_of_runs {d : Except Error Decision} {p p' : W × Life Phase}
    {o : Except Error (Move Phase)} (drivable : Drivable p.2)
    (h : Runs (fun _ => host.beside) B (handling host A c) d p o p') :
    Levels host A B c (.outer p.2 d) p.1 o p'.2 p'.1 := by
  induction h with
  | failed => exact .failed
  | stop => exact .stops
  | @broken v p e p' drive =>
    obtain ⟨⟨phase, u⟩, entry⟩ := Option.isSome_iff_exists.mp (drivable v)
    obtain ⟨d, w₁, o, w₂, taken, runs, sealed, left⟩ := (handling_entered_const entry).mp drive
    refine .drives entry taken (.inner_of_runs runs ?_)
    -- The outer loop sees an error only where the inner one has ended with one.
    cases o with
    | ok move => cases congrArg Prod.fst sealed
    | error e =>
      rw [left]
      exact .innerFailed sealed
  | @round v p step p₁ d p₂ o p' drive reacts rest ih =>
    obtain ⟨⟨phase, u⟩, entry⟩ := Option.isSome_iff_exists.mp (drivable v)
    obtain ⟨d₁, w₁, o₁, w₂, taken, runs, sealed, left⟩ := (handling_entered_const entry).mp
      drive
    refine .drives entry taken (.inner_of_runs runs ?_)
    cases o₁ with
    | error e =>
      obtain ⟨e', he'⟩ := Life.error_of_seal mints sealed
      cases he'
    | ok move =>
      obtain ⟨w₃, l₃⟩ := p₁
      obtain ⟨w₄, l₄⟩ := p₂
      obtain ⟨hstep, rfl⟩ := Exec.pure_eq_of.mp sealed
      obtain rfl : l₃ = Life.left (.ok move) := left
      rw [Exec.ends_const, react_beside, Exec.beside_eq] at reacts
      obtain ⟨answer, rfl⟩ := reacts
      cases hstep
      cases move with
      | suspend x phase => exact .yields answer (ih (drivable_suspended phase))
      | complete r =>
        obtain ⟨rfl, rfl⟩ := Exec.pure_eq_of.mp answer
        cases rest
        exact .completes

omit mints in
/-- What the outer loop makes of the end of the inner one. -/
def Answered (host : Host W) (A B : Table) (c : Source W) (w : W) (o : Except Error (Move Phase))
    (l' : Life Phase) (w' : W) : Except Error (Move Phase) → Prop
  | .error e => ∃ e',
      Life.seal host.mint (.error e : Except Error (Move Phase)) w = (.raised e', w') ∧
      o = .error e' ∧ l' = .finished
  | .ok (.complete r) => o = .ok (.complete r) ∧ l' = .finished ∧ w' = w
  | .ok (.suspend x phase) => ∃ d w₁, resolve host B x w = (.of d, w₁) ∧
      Runs (fun _ => host.beside) B (handling host A c) d (w₁, .suspended phase) o (w', l')

omit mints in
theorem runs_of_levels {level : Level} {w w' : W} {o : Except Error (Move Phase)} {l' : Life Phase}
    (h : Levels host A B c level w o l' w') :
    match level with
    | .inner d => ∃ o₁ w₁, Runs (fun _ => host) A (fun _ => c) d w o₁ w₁ ∧
        Answered host A B c w₁ o l' w' o₁
    | .outer l d => Runs (fun _ => host.beside) B (handling host A c) d (w, l) o (w', l') := by
  induction h with
  | innerFailed sealed => exact ⟨_, _, .failed, _, sealed, rfl, rfl⟩
  | innerBroken drive _ ih =>
    obtain ⟨o₁, w₁, runs, answered⟩ := ih
    cases runs
    exact ⟨_, _, .broken (Exec.ends_const.mpr drive), answered⟩
  | innerRound drive reacts _ ih =>
    obtain ⟨o₁, w₁, runs, answered⟩ := ih
    exact ⟨o₁, w₁, .round (Exec.ends_const.mpr drive) (Exec.ends_const.mpr reacts) runs, answered⟩
  | completes => exact ⟨_, _, .stop, rfl, rfl, rfl⟩
  | yields reacts _ ih => exact ⟨_, _, .stop, _, _, reacts, ih⟩
  | failed => exact .failed
  | stops => exact .stop
  | @drives l v phase u w d w₁ o l' w' entry taken _ ih =>
    obtain ⟨o₁, w₂, runs, answered⟩ := ih
    -- All that the inner loop does in this drive is one drive for the outer loop.
    have drive (sight : Sight) (w₃ : W) (sealed : Life.seal host.mint o₁ w₂ = (.of sight, w₃)) :
        Exec.Ends (fun b => handling host A c b v) (w, l) sight (w₃, Life.left o₁) :=
      (handling_entered_const entry).mpr ⟨d, w₁, o₁, w₂, taken, runs, sealed, rfl⟩
    have round (move : Move Phase) (d₁ : Except Error Decision) (w₃ : W) (ho : o₁ = .ok move)
        (reacts : react host B move.step w₂ = (.of d₁, w₃))
        (rest : Runs (fun _ => host.beside) B (handling host A c) d₁ (w₃, Life.left (.ok move)) o
          (w', l')) :
        Runs (fun _ => host.beside) B (handling host A c) (.ok (.proceed v)) (w, l) o (w', l') := by
      subst ho
      refine .round (drive (.ok move.step) w₂ rfl) (Exec.ends_const.mpr ?_) rest
      rw [react_beside, Exec.beside_eq]
      exact ⟨reacts, rfl⟩
    match o₁, answered with
    | .error e, ⟨e', sealed, ho, hl⟩ =>
      subst ho hl
      exact .broken (drive _ _ sealed)
    | .ok (.complete r), ⟨ho, hl, hw⟩ =>
      subst ho hl hw
      exact round _ (.ok (.stop (.complete r))) _ rfl rfl .stop
    | .ok (.suspend x phase), ⟨d₁, w₃, reacts, rest⟩ => exact round _ d₁ w₃ rfl reacts rest

/-- Both loops together are the outer loop over the inner one. -/
theorem runs_iff_levels {l l' : Life Phase} (drivable : Drivable l) {d : Except Error Decision}
    {w w' : W} {o : Except Error (Move Phase)} :
    Runs (fun _ => host.beside) B (handling host A c) d (w, l) o (w', l') ↔
      Levels host A B c (.outer l d) w o l' w' :=
  ⟨levels_of_runs mints drivable, runs_of_levels⟩

theorem nested_entered {l l' m m' : Life Phase} (drivable : Drivable l) {v u : Value}
    {phase : Phase} (entry : m.enters? v = some (phase, u)) {w w' : W} {sight : Sight} :
    Exec.Ends (fun b => nested host A B c b v) ((w, l), m) sight ((w', l'), m') ↔
      ∃ d w₁ o w₂, takeUp host phase u w = (.of d, w₁) ∧
        Levels host A B c (.outer l d) w₁ o l' w₂ ∧
        Life.seal host.mint o w₂ = (.of sight, w') ∧ m' = Life.left o := by
  have h := @handling_entered (W × Life Phase) (fun _ => host.beside) B (handling host A c)
    (Host.growing_const _) steady_handling m m' v u phase entry (w, l) (w', l') sight
  simp only [takeUp_beside, seal_beside, Exec.ends_const] at h
  refine h.trans ⟨?_, ?_⟩
  · rintro ⟨d, ⟨w₁, l₁⟩, o, ⟨w₂, l₂⟩, taken, runs, sealed, left⟩
    rw [Exec.beside_eq] at taken sealed
    obtain ⟨taken', rfl⟩ := taken
    obtain ⟨sealed', rfl⟩ := sealed
    exact ⟨d, w₁, o, w₂, taken', (runs_iff_levels mints drivable).mp runs, sealed', left⟩
  · rintro ⟨d, w₁, o, w₂, taken, levels, sealed, left⟩
    exact ⟨d, (w₁, l), o, (w₂, l'), Exec.beside_eq.mpr ⟨taken, rfl⟩,
      (runs_iff_levels mints drivable).mpr levels, Exec.beside_eq.mpr ⟨sealed, rfl⟩, left⟩

omit mints in
theorem nested_finished {l l' m' : Life Phase} {v : Value} {w w' : W} {sight : Sight} :
    Exec.Ends (fun b => nested host A B c b v) ((w, l), .finished) sight ((w', l'), m') ↔
      sight = .ok (.completed .nil) ∧ m' = .finished ∧ l' = l ∧ w' = w := by
  have h := @handling_finished (W × Life Phase) (fun _ => host.beside) B (handling host A c)
    (Host.growing_const _) steady_handling m' v (w, l) (w', l') sight
  rw [Prod.mk.injEq, @and_comm (w' = w)] at h
  exact h

end

end OneShot.Dispatch
