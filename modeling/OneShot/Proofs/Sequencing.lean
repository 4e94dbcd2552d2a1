import OneShot.Proofs.Chaining
import OneShot.Proofs.Tables

/-!
# Handling respects sequencing

To handle a value is to give the value. To handle a chain is to chain the handled computations, as
long as no handler aborts an action of the first one.
-/

namespace OneShot

variable {W K : Type}

/-- The computation that completes with a value. -/
def Source.value (mint : Cause Value → Exec W Error) (v : Value) : Source (W × Life Unit) :=
  Source.ofBody mint fun _ _ => pure (.complete v)

namespace Dispatch

open Chain (follow)

/-! ## A value -/

section

variable {host : Host W} {table : Table}

theorem shown_finished {c : Source W} {driver : List Value} {w : W} {seen : List Sight}
    {p : W × Life Phase} :
    Source.Shown (handling host table c) driver (w, .finished) seen p ↔
      seen = driver.map (fun _ => .ok (.completed .nil)) ∧ p = (w, .finished) := by
  induction driver generalizing seen with
  | nil =>
    constructor
    · rintro ⟨⟩
      exact ⟨rfl, rfl⟩
    · rintro ⟨rfl, rfl⟩
      exact .nil
  | cons v driver ih =>
    constructor
    · rintro (_ | ⟨drive, rest⟩)
      obtain ⟨rfl, hl, hw⟩ := handling_finished_const.mp drive
      obtain ⟨rfl, rfl⟩ := ih.mp (by rwa [← hl, ← hw])
      exact ⟨rfl, rfl⟩
    · rintro ⟨rfl, rfl⟩
      exact .cons (handling_finished_const.mpr ⟨rfl, rfl, rfl⟩) (ih.mpr ⟨rfl, rfl⟩)

theorem handling_value {v u : Value} {w : W} {sight : Sight}
    {p : (W × Life Unit) × Life Phase} :
    Exec.Ends (fun b => handling host.beside table (Source.value host.mint v) b u)
        ((w, .fresh ()), .fresh .start) sight p ↔
      sight = .ok (.completed v) ∧ p = ((w, .finished), .finished) := by
  have drive : Exec.Ends (fun b => handling host.beside table (Source.value host.mint v) b u)
      ((w, .fresh ()), .fresh .start) (.ok (.completed v)) ((w, .finished), .finished) := ⟨1, rfl⟩
  constructor
  · intro h
    obtain ⟨rfl, rfl⟩ := (steady_handling u).unique h drive
    exact ⟨rfl, rfl⟩
  · rintro ⟨rfl, rfl⟩
    exact drive

theorem shows_value {v u : Value} {driver : List Value} {w left : W} {seen : List Sight} :
    Source.Shows (handling host.beside table (Source.value host.mint v)) (fun p => p.1.1)
        (u :: driver) ((w, .fresh ()), .fresh .start) seen left ↔
      seen = .ok (.completed v) :: driver.map (fun _ => .ok (.completed .nil)) ∧ left = w := by
  rw [Source.Shows]
  simp only [Source.ends_session steady_handling]
  constructor
  · rintro ⟨p, _ | ⟨drive, rest⟩, rfl⟩
    obtain ⟨rfl, rfl⟩ := handling_value.mp drive
    obtain ⟨rfl, rfl⟩ := shown_finished.mp rest
    exact ⟨rfl, rfl⟩
  · rintro ⟨rfl, rfl⟩
    exact ⟨_, .cons (handling_value.mpr ⟨rfl, rfl⟩) (shown_finished.mpr ⟨rfl, rfl⟩), rfl⟩

end

/-! ## Two loops, one after the other -/

/-- Makes the rest of a chain, which is handled from its start. -/
def anew (next : Value → Exec W K) (x : Value) : Exec (W × Life Phase) K := do
  let k ← (next x).beside
  Exec.modify fun p => (p.1, .fresh .start)
  return k

theorem anew_raised {next : Value → Exec W K} {x : Value} {w w' : W} {l l' : Life Phase}
    {e : Error} :
    anew next x (w, l) = (.raised e, (w', l')) ↔ next x w = (.raised e, w') ∧ l' = l := by
  simp only [anew, Bind.bind, Exec.bind, Exec.beside_apply]
  rcases next x w with ⟨r, w₁⟩
  cases r <;> simp [Exec.modify, Exec.pure_apply, and_assoc, eq_comm]

theorem anew_ok {next : Value → Exec W K} {x : Value} {w w' : W} {l l' : Life Phase} {k : K} :
    anew next x (w, l) = (.ok k, (w', l')) ↔ next x w = (.ok k, w') ∧ l' = .fresh .start := by
  simp only [anew, Bind.bind, Exec.bind, Exec.beside_apply]
  rcases next x w with ⟨r, w₁⟩
  cases r <;> simp [Exec.modify, Exec.pure_apply, and_assoc, eq_comm]

/-- A chain of handled computations. The loops run one after the other, so one place holds the life
of the one that runs. -/
def chained (host : Host W) (table : Table) (c : Source W) (next : Value → Exec W K)
    (rest : K → Source W) (bound : Nat) : Source ((W × Life Phase) × Life (Chain K)) :=
  Chain.source host.beside (handling host table c bound) (anew next) fun k =>
    handling host table (rest k) bound

section

variable {host : Host W} {table : Table} {c : Source W} {next : Value → Exec W K}
  {rest : K → Source W}

theorem growing_chained (v : Value) : Exec.Growing fun b => chained host table c next rest b v :=
  Source.growing_ofBody (fun s v =>
    Chain.growing_advance (fun v => steady_handling v) (fun _ v => steady_handling v) s v) v

theorem chained_entered {lc lc' : Life (Chain K)} {v u : Value} {s : Chain K}
    (entry : lc.enters? v = some (s, u)) {p p' : W × Life Phase} {sight : Sight} :
    Exec.Ends (fun b => chained host table c next rest b v) (p, lc) sight (p', lc') ↔
      ∃ o p₁, Exec.Ends (fun b => Chain.advance (handling host table c b) (anew next)
          (fun k => handling host table (rest k) b) s u) p o p₁ ∧
        Life.seal (host.beside : Host (W × Life Phase)).mint o p₁ = (.of sight, p') ∧
        lc' = Life.left o := by
  unfold chained Chain.source
  rw [Source.ends_ofBody, Drives.entered_iff entry]

theorem chained_finished {lc' : Life (Chain K)} {v : Value} {p p' : W × Life Phase}
    {sight : Sight} :
    Exec.Ends (fun b => chained host table c next rest b v) (p, .finished) sight (p', lc') ↔
      sight = .ok (.completed .nil) ∧ lc' = .finished ∧ p' = p := by
  unfold chained Chain.source
  rw [Source.ends_ofBody, Drives.finished_iff]

section Parts

variable (mints : host.Mints) {s : Chain K} {o : Except Error (Move Phase)} {w w' : W}
  {sight : Sight}

include mints

theorem part_forth {sight₁ : Sight} {w₁ : W} {li : Life Phase}
    (hseal : Life.seal host.mint o w = (.of sight₁, w₁))
    (sealed : Life.seal (host.beside : Host (W × Life Phase)).mint (sight₁.map (follow s))
      (w₁, Life.left o) = (.of sight, (w', li))) :
    Life.seal host.mint o w = (.of sight, w') ∧
      PartLives (.of s o) li (Life.left (sight₁.map (follow s))) := by
  rw [seal_beside, Exec.beside_eq] at sealed
  obtain ⟨again, rfl⟩ := sealed
  rcases o with e | ⟨a, phase⟩ | r
  · obtain ⟨e', rfl⟩ := Life.error_of_seal mints hseal
    exact ⟨(Life.seal_again mints hseal _ _).mpr again, .ended⟩
  · obtain ⟨rfl, rfl⟩ := Exec.pure_eq_of.mp hseal
    obtain ⟨rfl, rfl⟩ := Exec.pure_eq_of.mp again
    exact ⟨rfl, .waits⟩
  · obtain ⟨rfl, rfl⟩ := Exec.pure_eq_of.mp hseal
    obtain ⟨rfl, rfl⟩ := Exec.pure_eq_of.mp again
    exact ⟨rfl, .ended⟩

theorem part_back (sealed : Life.seal host.mint o w = (.of sight, w')) :
    Life.seal (host.beside : Host (W × Life Phase)).mint (sight.map (follow s)) (w', Life.left o) =
        (.of sight, (w', Life.left o)) ∧
      PartLives (.of s o) (Life.left o) (Life.left (sight.map (follow s))) := by
  rw [seal_beside, Exec.beside_eq]
  rcases o with e | ⟨a, phase⟩ | r
  · obtain ⟨e', rfl⟩ := Life.error_of_seal mints sealed
    exact ⟨⟨(Life.seal_again mints sealed (.error e') w').mp sealed, rfl⟩, .ended⟩
  · obtain ⟨rfl, rfl⟩ := Exec.pure_eq_of.mp sealed
    exact ⟨⟨rfl, rfl⟩, .waits⟩
  · obtain ⟨rfl, rfl⟩ := Exec.pure_eq_of.mp sealed
    exact ⟨⟨rfl, rfl⟩, .ended⟩

end Parts

variable (mints : host.Mints)

include mints

theorem rest_forth {k : K} {phase : Phase} {v : Value} {w w' : W} {sight : Sight}
    {li : Life Phase} {lc : Life (Chain K)}
    (drive : Exec.Ends (fun b => chained host table c next rest b v)
      ((w, .suspended phase), .suspended (.rest k)) sight ((w', li), lc)) :
    ∃ d w₀ o w₁, takeUp host phase v w = (.of d, w₀) ∧
      Runs (fun _ => host) table (fun _ => rest k) d w₀ o w₁ ∧
      Life.seal host.mint o w₁ = (.of sight, w') ∧ PartLives (.of (.rest k) o) li lc := by
  obtain ⟨o, ⟨w₂, l₂⟩, ends, sealed, rfl⟩ := (chained_entered rfl).mp drive
  obtain ⟨sight₁, rfl, handles⟩ := Chain.ends_rest.mp ends
  obtain ⟨d, w₀, o, w₁, taken, runs, hseal, rfl⟩ := (handling_entered_const rfl).mp handles
  obtain ⟨hsealed, lives⟩ := part_forth mints hseal sealed
  exact ⟨d, w₀, o, w₁, taken, runs, hsealed, lives⟩

theorem rest_back {k : K} {phase : Phase} {v : Value} {w w₀ w₁ w' : W} {sight : Sight}
    {d : Except Error Decision} {o : Except Error (Move Phase)}
    (taken : takeUp host phase v w = (.of d, w₀))
    (runs : Runs (fun _ => host) table (fun _ => rest k) d w₀ o w₁)
    (sealed : Life.seal host.mint o w₁ = (.of sight, w')) :
    ∃ li lc, Exec.Ends (fun b => chained host table c next rest b v)
      ((w, .suspended phase), .suspended (.rest k)) sight ((w', li), lc) ∧
      PartLives (.of (.rest k) o) li lc := by
  obtain ⟨again, lives⟩ := part_back (s := .rest k) mints sealed
  refine ⟨_, _, (chained_entered rfl).mpr ⟨_, (w', Life.left o), ?_, again, rfl⟩, lives⟩
  exact Chain.ends_rest.mpr ⟨sight, rfl,
    (handling_entered_const rfl).mpr ⟨d, w₀, o, w₁, taken, runs, sealed, rfl⟩⟩

theorem first_forth {lc lc' : Life (Chain K)} {li li' : Life Phase} {phase : Phase}
    {v u u' : Value} (entry : lc.enters? v = some (.first, u))
    (entry' : li.enters? u = some (phase, u')) {w w' : W} {sight : Sight}
    (drive : Exec.Ends (fun b => chained host table c next rest b v) ((w, li), lc) sight
      ((w', li'), lc')) :
    ∃ d w₀ fate, takeUp host phase u' w = (.of d, w₀) ∧
      FirstEnds host table c next rest d w₀ sight w' fate ∧ PartLives fate li' lc' := by
  obtain ⟨o, ⟨w₂, l₂⟩, ends, sealed, rfl⟩ := (chained_entered entry).mp drive
  obtain ⟨sight₁, ⟨w₃, l₃⟩, handles, h⟩ :=
    (Chain.ends_first steady_handling fun _ v => steady_handling v).mp ends
  obtain ⟨d, w₀, o₁, w₁, taken, runs, hseal, rfl⟩ := (handling_entered_const entry').mp handles
  rcases o₁ with e | ⟨a, phase'⟩ | x
  · obtain ⟨e', rfl⟩ := Life.error_of_seal mints hseal
    obtain ⟨rfl, ⟨⟩⟩ := h
    obtain ⟨hsealed, lives⟩ := part_forth (s := .first) mints hseal sealed
    exact ⟨d, w₀, _, taken, ⟨_, w₁, runs, hsealed, rfl⟩, lives⟩
  · obtain ⟨rfl, rfl⟩ := Exec.pure_eq_of.mp hseal
    obtain ⟨rfl, ⟨⟩⟩ := h
    obtain ⟨rfl, hw⟩ := Exec.pure_eq_of.mp sealed
    obtain ⟨rfl, rfl⟩ := Prod.mk.inj hw
    exact ⟨d, w₀, _, taken, ⟨_, _, runs, rfl, rfl, rfl⟩, .waits⟩
  · obtain ⟨rfl, rfl⟩ := Exec.pure_eq_of.mp hseal
    rcases h with ⟨e, hnext, rfl⟩ | ⟨k, ⟨w₄, l₄⟩, sight₂, hnext, begins, rfl⟩
    · obtain ⟨hraised, -⟩ := anew_raised.mp hnext
      rw [seal_beside] at sealed
      have hsealed := (Exec.beside_eq.mp sealed).1
      exact ⟨d, w₀, _, taken, ⟨_, _, runs, Or.inl ⟨e, w₂, hraised, hsealed, rfl⟩⟩, .ended⟩
    · -- The first part completes, and the rest is handled from its start in the same drive.
      obtain ⟨hok, rfl⟩ := anew_ok.mp hnext
      obtain ⟨d₂, w₅, o₂, w₆, taken₂, runs₂, hseal₂, rfl⟩ := (handling_entered_const rfl).mp begins
      obtain ⟨rfl, rfl⟩ := Exec.pure_eq_of.mp taken₂
      obtain ⟨hsealed, lives⟩ := part_forth (s := .rest k) mints hseal₂ sealed
      exact ⟨d, w₀, _, taken, ⟨_, _, runs, Or.inr ⟨k, _, o₂, w₆, hok, runs₂, hsealed, rfl⟩⟩, lives⟩

theorem first_back {lc : Life (Chain K)} {li : Life Phase} {phase : Phase} {v u u' : Value}
    (entry : lc.enters? v = some (.first, u)) (entry' : li.enters? u = some (phase, u'))
    {w w₀ w' : W} {sight : Sight} {d : Except Error Decision} {fate : Fate K}
    (taken : takeUp host phase u' w = (.of d, w₀))
    (ends : FirstEnds host table c next rest d w₀ sight w' fate) :
    ∃ li' lc', Exec.Ends (fun b => chained host table c next rest b v) ((w, li), lc) sight
      ((w', li'), lc') ∧ PartLives fate li' lc' := by
  obtain ⟨o, w₁, runs, h⟩ := ends
  have handles {sight₁ : Sight} {w₂ : W} (sealed : Life.seal host.mint o w₁ = (.of sight₁, w₂)) :
      Exec.Ends (fun b => handling host table c b u) (w, li) sight₁ (w₂, Life.left o) :=
    (handling_entered_const entry').mpr ⟨d, w₀, o, w₁, taken, runs, sealed, rfl⟩
  have advances {o : Except Error (Move (Chain K))} {p : W × Life Phase} :=
    @Chain.ends_first _ _ (handling host table c) (anew next)
      (fun b k => handling host table (rest k) b) steady_handling (fun _ v => steady_handling v) u
      (w, li) p o
  have drives {o : Except Error (Move (Chain K))} {p : W × Life Phase} {li' : Life Phase}
      {sight : Sight}
      (ends : Exec.Ends (fun b => Chain.advance (handling host table c b) (anew next)
        (fun k => handling host table (rest k) b) .first u) (w, li) o p)
      (sealed : Life.seal (host.beside : Host (W × Life Phase)).mint o p = (.of sight, (w', li'))) :
      Exec.Ends (fun b => chained host table c next rest b v) ((w, li), lc) sight
        ((w', li'), Life.left o) :=
    (chained_entered entry).mpr ⟨o, p, ends, sealed, rfl⟩
  -- The first part raises, waits, or completes. Only a completed one hands over to the rest.
  rcases o with e | ⟨a, phase'⟩ | x
  · obtain ⟨sealed, rfl⟩ := h
    obtain ⟨e', rfl⟩ := Life.error_of_seal mints sealed
    obtain ⟨again, lives⟩ := part_back (s := .first) mints sealed
    exact ⟨_, _, drives (advances.mpr ⟨.error e', _, handles sealed, rfl, rfl⟩) again, lives⟩
  · obtain ⟨rfl, rfl, rfl⟩ := h
    exact ⟨_, _, drives (advances.mpr ⟨.ok (.suspended a), _, handles rfl, rfl, rfl⟩) rfl, .waits⟩
  · rcases h with ⟨e, w₂, hnext, sealed, rfl⟩ | ⟨k, w₂, o₂, w₃, hnext, runs₂, sealed, rfl⟩
    · refine ⟨.finished, _, drives (advances.mpr ⟨.ok (.completed x), _, handles rfl,
        Or.inl ⟨e, anew_raised.mpr ⟨hnext, rfl⟩, rfl⟩⟩) ?_, .ended⟩
      rw [seal_beside]
      exact Exec.beside_eq.mpr ⟨sealed, rfl⟩
    · obtain ⟨again, lives⟩ := part_back (s := .rest k) mints sealed
      have begins : Exec.Ends (fun b => handling host table (rest k) b .nil) (w₂, .fresh .start)
          sight (w', Life.left o₂) :=
        (handling_entered_const rfl).mpr ⟨_, _, o₂, w₃, rfl, runs₂, sealed, rfl⟩
      exact ⟨_, _, drives (advances.mpr ⟨.ok (.completed x), _, handles rfl,
        Or.inr ⟨k, _, sight, anew_ok.mpr ⟨hnext, rfl⟩, begins, rfl⟩⟩) again, lives⟩

end

/-! ## One loop over both -/

/-- A handled chain: one loop runs over both computations. -/
def handledChain (host : Host W) (table : Table) (c : Source W) (next : Value → Exec W K)
    (rest : K → Source W) : Nat → Source ((W × Life (Chain K)) × Life Phase) :=
  handling host.beside table (Chain.source host c next rest)

/-- A drive in which no handler aborts an action of the first computation: where it completes the
loop, the chain does not wait there. -/
def Unstopped (p : (W × Life (Chain K)) × Life Phase) (sight : Sight)
    (p' : (W × Life (Chain K)) × Life Phase) : Prop :=
  p.2 ≠ .finished → Unbroken sight p'.1.2

section

variable {host : Host W} {table : Table} {c : Source W} {next : Value → Exec W K}
  {rest : K → Source W}

theorem handledChain_entered {lo lo' : Life Phase} {v u : Value} {phase : Phase}
    (entry : lo.enters? v = some (phase, u)) {w w' : W} {lc lc' : Life (Chain K)} {sight : Sight} :
    Exec.Ends (fun b => handledChain host table c next rest b v) ((w, lc), lo) sight
        ((w', lc'), lo') ↔
      ∃ d w₀ o w₁, takeUp host phase u w = (.of d, w₀) ∧
        ChainRuns host table c next rest d (w₀, lc) o (w₁, lc') ∧
        Life.seal host.mint o w₁ = (.of sight, w') ∧ lo' = Life.left o := by
  refine (handling_entered_const entry).trans ?_
  rw [takeUp_beside]
  constructor
  · rintro ⟨d, ⟨w₀, l₀⟩, o, ⟨w₁, l₁⟩, taken, runs, sealed, left⟩
    rw [seal_beside] at sealed
    obtain ⟨htaken, rfl⟩ := Exec.beside_eq.mp taken
    obtain ⟨hsealed, rfl⟩ := Exec.beside_eq.mp sealed
    exact ⟨d, w₀, o, w₁, htaken, runs, hsealed, left⟩
  · rintro ⟨d, w₀, o, w₁, taken, runs, sealed, left⟩
    refine ⟨d, (w₀, lc), o, (w₁, lc'), Exec.beside_eq.mpr ⟨taken, rfl⟩, runs, ?_, left⟩
    rw [seal_beside]
    exact Exec.beside_eq.mpr ⟨sealed, rfl⟩

theorem handledChain_of_ends {lo : Life Phase} {v u : Value} {phase : Phase}
    (entry : lo.enters? v = some (phase, u)) {w w₀ w' : W} {lc : Life (Chain K)} {sight : Sight}
    {d : Except Error Decision} {fate : Fate K} (taken : takeUp host phase u w = (.of d, w₀))
    (ends : ChainEnds host table c next rest d (w₀, lc) sight w' fate) :
    ∃ lc' lo', Exec.Ends (fun b => handledChain host table c next rest b v) ((w, lc), lo) sight
      ((w', lc'), lo') ∧ OneLives fate lc' lo' := by
  obtain ⟨o, ⟨w₁, lc'⟩, runs, sealed, lives⟩ := ends
  exact ⟨lc', _, (handledChain_entered entry).mpr ⟨d, w₀, o, w₁, taken, runs, sealed, rfl⟩, lives⟩

theorem unbroken_of_unstopped {lc : Life (Chain K)} {lo : Life Phase} {v u : Value} {phase : Phase}
    (entry : lo.enters? v = some (phase, u)) {w w₀ : W} {d : Except Error Decision}
    (taken : takeUp host phase u w = (.of d, w₀))
    (safe : ∀ sight p, Exec.Ends (fun b => handledChain host table c next rest b v) ((w, lc), lo)
      sight p → Unstopped ((w, lc), lo) sight p) {o : Except Error (Move Phase)}
    {p : W × Life (Chain K)} (runs : ChainRuns host table c next rest d (w₀, lc) o p) (r : Value)
    (completes : o = .ok (.complete r)) : p.2 ≠ .suspended .first := by
  subst completes
  have drive : Exec.Ends (fun b => handledChain host table c next rest b v) ((w, lc), lo)
      (.ok (.completed r)) (p, .finished) :=
    (handledChain_entered entry).mpr ⟨d, w₀, _, p.1, taken, runs, rfl, rfl⟩
  exact safe _ _ drive (Life.going_of_entry entry) r rfl

variable (mints : host.Mints)

include mints

/-- What one loop over a chain does, the loops over the parts do. -/
theorem chained_of_handled {fate : Fate K} {lc lc₁ lc' : Life (Chain K)} {li lo lo' : Life Phase}
    (one : OneLives fate lc lo) (part : PartLives fate li lc₁) {v : Value} {w w' : W}
    {sight : Sight} (unstopped : Unstopped ((w, lc), lo) sight ((w', lc'), lo'))
    (drive : Exec.Ends (fun b => handledChain host table c next rest b v) ((w, lc), lo) sight
      ((w', lc'), lo')) :
    ∃ fate' li' lc₁', Exec.Ends (fun b => chained host table c next rest b v) ((w, li), lc₁) sight
      ((w', li'), lc₁') ∧ OneLives fate' lc' lo' ∧ PartLives fate' li' lc₁' := by
  cases one with
  | fresh =>
    cases part
    obtain ⟨d, w₀, o, w₁, taken, runs, sealed, rfl⟩ := (handledChain_entered rfl).mp drive
    obtain ⟨rfl, rfl⟩ := Exec.pure_eq_of.mp taken
    obtain ⟨fate, ends, one⟩ :=
      first_of_chain mints runs (Or.inr ⟨rfl, rfl⟩) sealed (unstopped nofun)
    obtain ⟨li', lc₁', drive', part⟩ := first_back mints (Life.enters?_fresh Chain.first v)
      (Life.enters?_fresh .start .nil) taken ends
    exact ⟨fate, li', lc₁', drive', one, part⟩
  | @waits s phase =>
    cases part
    obtain ⟨d, w₀, o, w₁, taken, runs, sealed, rfl⟩ := (handledChain_entered rfl).mp drive
    cases s with
    | first =>
      obtain ⟨fate, ends, one⟩ := first_of_chain mints runs (Or.inl rfl) sealed (unstopped nofun)
      obtain ⟨li', lc₁', drive', part⟩ := first_back mints (Life.enters?_suspended Chain.first v)
        (Life.enters?_suspended phase v) taken ends
      exact ⟨fate, li', lc₁', drive', one, part⟩
    | rest k =>
      obtain ⟨o₁, w₂, runs₁, sealed₁, one⟩ := rest_of_chain mints runs rfl sealed
      obtain ⟨li', lc₁', drive', part⟩ := rest_back mints taken runs₁ sealed₁
      exact ⟨_, li', lc₁', drive', one, part⟩
  | ended =>
    cases part
    obtain ⟨rfl, rfl, hw⟩ := handling_finished_const.mp drive
    obtain ⟨rfl, rfl⟩ := Prod.mk.inj hw
    exact ⟨.ended, _, _, chained_finished.mpr ⟨rfl, rfl, rfl⟩, .ended, .ended⟩

/-- What the loops over the parts do, one loop over the chain does. -/
theorem handled_of_chained {fate : Fate K} {lc lc₁ lc₁' : Life (Chain K)} {li li' lo : Life Phase}
    (one : OneLives fate lc lo) (part : PartLives fate li lc₁) {v : Value} {w w' : W}
    {sight : Sight}
    (safe : ∀ sight p, Exec.Ends (fun b => handledChain host table c next rest b v) ((w, lc), lo)
      sight p → Unstopped ((w, lc), lo) sight p)
    (drive : Exec.Ends (fun b => chained host table c next rest b v) ((w, li), lc₁) sight
      ((w', li'), lc₁')) :
    ∃ fate' lc' lo', Exec.Ends (fun b => handledChain host table c next rest b v) ((w, lc), lo)
      sight ((w', lc'), lo') ∧ OneLives fate' lc' lo' ∧ PartLives fate' li' lc₁' := by
  -- The part at hand is the first computation, the rest, or neither.
  cases one with
  | fresh =>
    cases part
    obtain ⟨d, w₀, fate, taken, ⟨o, w₁, runs, ends⟩, part⟩ := first_forth mints rfl rfl drive
    have hd : d = .ok (.proceed .nil) := (Exec.pure_eq_of.mp taken).1
    have chain := chain_of_first mints runs (Or.inr ⟨rfl, hd⟩) ends fun _ _ runs r =>
      unbroken_of_unstopped rfl taken safe runs r
    obtain ⟨lc', lo', drive', one⟩ :=
      handledChain_of_ends (Life.enters?_fresh .start v) taken chain
    exact ⟨fate, lc', lo', drive', one, part⟩
  | @waits s phase =>
    cases part
    cases s with
    | first =>
      obtain ⟨d, w₀, fate, taken, ⟨o, w₁, runs, ends⟩, part⟩ := first_forth mints rfl rfl drive
      have chain := chain_of_first mints runs (Or.inl rfl) ends fun _ _ runs r =>
        unbroken_of_unstopped rfl taken safe runs r
      obtain ⟨lc', lo', drive', one⟩ :=
        handledChain_of_ends (Life.enters?_suspended phase v) taken chain
      exact ⟨fate, lc', lo', drive', one, part⟩
    | rest k =>
      obtain ⟨d, w₀, o, w₁, taken, runs, sealed, part⟩ := rest_forth mints drive
      obtain ⟨lc', lo', drive', one⟩ := handledChain_of_ends (Life.enters?_suspended phase v) taken
        (chain_of_rest mints runs sealed)
      exact ⟨_, lc', lo', drive', one, part⟩
  | ended =>
    cases part
    obtain ⟨rfl, rfl, hw⟩ := chained_finished.mp drive
    obtain ⟨rfl, rfl⟩ := Prod.mk.inj hw
    exact ⟨.ended, _, _, handling_finished_const.mpr ⟨rfl, rfl, rfl⟩, .ended, .ended⟩

end

/-! ## The whole run -/

theorem shows_chain_iff {host : Host W} (mints : host.Mints) {table : Table} {c : Source W}
    {next : Value → Exec W K} {rest : K → Source W} {driver : List Value} {w : W}
    (unstopped : Source.Throughout (handledChain host table c next rest) Unstopped driver
      ((w, .fresh .first), .fresh .start)) (seen : List Sight) (left : W) :
    Source.Shows (handledChain host table c next rest) (fun p => p.1.1) driver
        ((w, .fresh .first), .fresh .start) seen left ↔
      Source.Shows (chained host table c next rest) (fun p => p.1.1) driver
        ((w, .fresh .start), .fresh .first) seen left := by
  refine Source.shows_iff_of_match steady_handling growing_chained Unstopped
    (fun p q => p.1.1 = q.1.1 ∧ ∃ fate, OneLives fate p.1.2 p.2 ∧ PartLives fate q.1.2 q.2)
    (fun h => h.1) ?_ ?_ ⟨rfl, .fresh, .fresh, .fresh⟩ unstopped
  · rintro ⟨⟨w, lc⟩, lo⟩ ⟨⟨_, li⟩, lc₁⟩ v sight ⟨⟨w', lc'⟩, lo'⟩ ⟨rfl, fate, one, part⟩ unstopped
      drive
    obtain ⟨fate', li', lc₁', drive', one', part'⟩ :=
      chained_of_handled mints one part unstopped drive
    exact ⟨((w', li'), lc₁'), drive', rfl, fate', one', part'⟩
  · rintro ⟨⟨w, lc⟩, lo⟩ ⟨⟨_, li⟩, lc₁⟩ v sight ⟨⟨w', li'⟩, lc₁'⟩ ⟨rfl, fate, one, part⟩ safe drive
    obtain ⟨fate', lc', lo', drive', one', part'⟩ := handled_of_chained mints one part safe drive
    exact ⟨((w', lc'), lo'), drive', rfl, fate', one', part'⟩

end Dispatch

end OneShot
