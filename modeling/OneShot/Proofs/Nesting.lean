import OneShot.Proofs.Levels
import OneShot.Proofs.Tables

/-!
# Handling twice and handling once

To handle a computation with one table and the result with another one is to handle it once with
both tables merged. The inner table wins where both have an entry. The computations that handlers of
the inner table return are the exception: the outer table sees what they yield, the merged one does
not.
-/

namespace OneShot.Dispatch

variable {W : Type}

/-- The lives of the computation with the merged table, of the inner one and of the outer one. -/
inductive Nested (A : Table) : Life Phase → Life Phase → Life Phase → Prop where
  | fresh : Nested A (.fresh .start) (.fresh .start) (.fresh .start)
  /-- The outer loop waits for what the merged one waits for. -/
  | outer {phase} : Nested A (.suspended phase) (.suspended .forwarding) (.suspended phase)
  /-- A computation that a handler of the inner table returned waits. -/
  | inner {n a token} (claimed : A.claim a ≠ .unclaimed) :
      Nested A (.suspended (.handlerBody n a token)) (.suspended (.handlerBody n a token))
        (.suspended .forwarding)
  | finished {l} : Nested A .finished l .finished

/-- What the inner handlers' computations yield is nothing that `B` has to do with. -/
def Reserved (A B : Table) (o : Except Error (Move Phase)) : Prop :=
  ∀ x n a token, o = .ok (.suspend x (.handlerBody n a token)) → A.claim a ≠ .unclaimed →
    B.claim x = .unclaimed

/-- A decision that the inner loop shares with the merged one. -/
def Shared (A : Table) : Except Error Decision → Prop
  | .ok (.stop (.suspend _ phase)) => ∃ n a token, phase = .handlerBody n a token ∧
      A.claim a ≠ .unclaimed
  | _ => True

theorem Shared.of_about {A : Table} {a : Value} {d : Except Error Decision}
    (claimed : A.claim a ≠ .unclaimed) (h : About a d) : Shared A d := by
  match d with
  | .error e => trivial
  | .ok (.proceed v) => trivial
  | .ok (.stop (.complete r)) => trivial
  | .ok (.stop (.suspend x phase)) =>
    obtain ⟨n, token, rfl⟩ := h
    exact ⟨n, a, token, rfl, claimed⟩

/-- The loops have ended in the same way, with matching lives. -/
def Agree (host : Host W) (A : Table) (o : Except Error (Move Phase)) (w : W)
    (o' : Except Error (Move Phase)) (l' : Life Phase) (w' : W) : Prop :=
  (∀ sight w₁, Life.seal host.mint o w = (.of sight, w₁) ↔
    Life.seal host.mint o' w' = (.of sight, w₁)) ∧ Nested A (Life.left o) l' (Life.left o')

section

variable {host : Host W} {A B M : Table} {c : Source W}

theorem agree_refl_of_asked {o : Except Error (Move Phase)} {w : W} :
    Agree host A o w o (.suspended .forwarding) w := by
  refine ⟨fun _ _ => Iff.rfl, ?_⟩
  match o with
  | .error e => exact .finished
  | .ok (.complete r) => exact .finished
  | .ok (.suspend x phase) => exact .outer

theorem agree_complete {r : Value} {l : Life Phase} {w : W} :
    Agree host A (.ok (.complete r)) w (.ok (.complete r)) l w :=
  ⟨fun _ _ => Iff.rfl, .finished⟩

theorem agree_error (mints : host.Mints) {e e' : Error} {w w' : W} {l : Life Phase}
    (h : Life.seal host.mint (.error e : Except Error (Move Phase)) w = (.raised e', w')) :
    Agree host A (.error e) w (.error e') l w' := by
  exact ⟨Life.seal_again mints h, .finished⟩

/-- Both loops go on from here to an end that agrees with this one. -/
def Follow (host : Host W) (A B : Table) (c : Source W) (level : Level) (w : W)
    (o : Except Error (Move Phase)) (w₁ : W) : Prop :=
  ∃ o' l' w', Levels host A B c level w o' l' w' ∧ Agree host A o w₁ o' l' w'

theorem Follow.after {level level' : Level} {w w₀ w₁ : W} {o : Except Error (Move Phase)}
    (h : Follow host A B c level w o w₁)
    (before : ∀ {o' l' w'}, Levels host A B c level w o' l' w' →
      Levels host A B c level' w₀ o' l' w') : Follow host A B c level' w₀ o w₁ := by
  obtain ⟨o', l', w', levels, agree⟩ := h
  exact ⟨o', l', w', before levels, agree⟩

theorem follow_failed (mints : host.Mints) (e : Error) (w : W) :
    Follow host A B c (.inner (.error e)) w (.error e) w := by
  obtain ⟨e', w', sealed, -⟩ := Life.seal_error (S := Phase) mints e w
  exact ⟨_, _, _, .innerFailed sealed, agree_error mints sealed⟩

theorem follow_asked (w : W) (move : Move Phase) :
    Follow host A B c (.outer (.suspended .forwarding) (.ok (.stop move))) w (.ok move) w :=
  ⟨_, _, _, .stops, agree_refl_of_asked⟩

theorem follow_stop (quiet : ∀ n, host.note n = pure ()) {move : Move Phase}
    (shared : Shared A (.ok (.stop move))) (reserved : Reserved A B (.ok move)) (w : W) :
    Follow host A B c (.inner (.ok (.stop move))) w (.ok move) w := by
  match move with
  | .complete r => exact ⟨_, _, _, .completes, agree_complete⟩
  | .suspend x phase =>
    obtain ⟨n, a, token, rfl, claimed⟩ := shared
    have forwards := resolve_unclaimed quiet (reserved x n a token rfl claimed)
    have answer : resolve host B x w = (.of (.ok (.stop (.suspend x .forwarding))), w) := by
      rw [forwards]
      rfl
    exact ⟨_, _, _, .yields answer .stops, fun _ _ => Iff.rfl, .inner claimed⟩

/-- What the merged loop does where both loops are. An action that the inner table does not claim is
still to be resolved there. -/
def Merged (host : Host W) (M : Table) (c : Source W) :
    Level → W → Except Error (Move Phase) → W → Prop
  | .inner (.ok (.stop (.suspend y .forwarding))), w, o, w' => ∃ d w₁,
    resolve host M y w = (.of d, w₁) ∧ Runs (fun _ => host) M (fun _ => c) d w₁ o w'
  | .inner d, w, o, w' => Runs (fun _ => host) M (fun _ => c) d w o w'
  | .outer _ d, w, o, w' => Runs (fun _ => host) M (fun _ => c) d w o w'

/-- The inner loop suspends for an action that its table does not claim, or in a computation of a
handler. The outer loop drives one that waits for an answer. -/
def Fits (A : Table) : Level → Prop
  | .inner (.ok (.stop (.suspend y .forwarding))) => A.claim y = .unclaimed
  | .inner d => Shared A d
  | .outer l _ => l = .suspended .forwarding

theorem Fits.of_shared {d : Except Error Decision} (h : Shared A d) : Fits A (.inner d) := by
  match d with
  | .error e => trivial
  | .ok (.proceed v) => trivial
  | .ok (.stop (.complete r)) => trivial
  | .ok (.stop (.suspend x phase)) =>
    obtain ⟨n, a, token, rfl, claimed⟩ := h
    exact ⟨n, a, token, rfl, claimed⟩

theorem merged_of_shared {d : Except Error Decision} (h : Shared A d) {w w' : W}
    {o : Except Error (Move Phase)} :
    Merged host M c (.inner d) w o w' ↔ Runs (fun _ => host) M (fun _ => c) d w o w' := by
  match d with
  | .error e => exact Iff.rfl
  | .ok (.proceed v) => exact Iff.rfl
  | .ok (.stop (.complete r)) => exact Iff.rfl
  | .ok (.stop (.suspend x phase)) =>
    obtain ⟨n, a, token, rfl, claimed⟩ := h
    exact Iff.rfl

/-- If it ends only in what `B` leaves alone, the merged loop ends here as both loops do. -/
def Merging (host : Host W) (A B M : Table) (c : Source W) (level : Level) (w : W)
    (o' : Except Error (Move Phase)) (l' : Life Phase) (w' : W) : Prop :=
  (∀ o w₁, Merged host M c level w o w₁ → Reserved A B o) →
    ∃ o w₁, Merged host M c level w o w₁ ∧ Agree host A o w₁ o' l' w'

theorem Merging.after {level level' : Level} {w w₀ w' : W} {o' : Except Error (Move Phase)}
    {l' : Life Phase} (h : Merging host A B M c level w o' l' w')
    (before : ∀ {o w₁}, Merged host M c level w o w₁ → Merged host M c level' w₀ o w₁) :
    Merging host A B M c level' w₀ o' l' w' := by
  intro reserved
  obtain ⟨o, w₁, merged, agree⟩ := h fun o w₁ h => reserved o w₁ (before h)
  exact ⟨o, w₁, before merged, agree⟩

variable (mints : host.Mints) (quiet : ∀ n, host.note n = pure ())
  (merges : ∀ v, M.claim v = match A.claim v with
    | .unclaimed => B.claim v
    | claim => claim)

include merges in
theorem resolve_inner {v : Value} (claimed : A.claim v ≠ .unclaimed) :
    resolve host M v = resolve host A v := by
  refine resolve_congr ?_
  rw [merges]
  split
  · rename_i h
    exact absurd h claimed
  · rfl

include merges in
theorem resolve_outer {v : Value} (unclaimed : A.claim v = .unclaimed) :
    resolve host M v = resolve host B v := by
  refine resolve_congr ?_
  rw [merges, unclaimed]

include mints quiet merges

/-- What the merged loop does, both loops do. -/
theorem follow_of_runs {d : Except Error Decision} {w w₁ : W} {o : Except Error (Move Phase)}
    (h : Runs (fun _ => host) M (fun _ => c) d w o w₁) (reserved : Reserved A B o) :
    (Shared A d → Follow host A B c (.inner d) w o w₁) ∧
      Follow host A B c (.outer (.suspended .forwarding) d) w o w₁ := by
  -- One decision of the merged loop is one of the inner loop or of the outer one, so the induction
  -- carries both.
  induction h with
  | failed => exact ⟨fun _ => follow_failed mints _ _, _, _, _, .failed, agree_refl_of_asked⟩
  | stop => exact ⟨fun shared => follow_stop quiet shared reserved _, follow_asked _ _⟩
  | broken drive =>
    have inner := (follow_failed (A := A) (B := B) (c := c) mints _ _).after
      (.innerBroken (Exec.ends_const.mp drive))
    exact ⟨fun _ => inner, inner.after (.drives rfl rfl)⟩
  | @round v w step w₁ d w₂ o w₃ drive reacts _ ih =>
    have drive := Exec.ends_const.mp drive
    have reacts := Exec.ends_const.mp reacts
    obtain ⟨ih_inner, ih_outer⟩ := ih reserved
    have inner : Follow host A B c (.inner (.ok (.proceed v))) w o w₃ := by
      cases step with
      | completed r =>
        obtain ⟨rfl, rfl⟩ := Exec.pure_eq_of.mp reacts
        exact (ih_inner trivial).after (.innerRound drive rfl)
      | suspended y =>
        by_cases claimed : A.claim y = .unclaimed
        · have asks : resolve host A y w₁ = (.of (.ok (.stop (.suspend y .forwarding))), w₁) := by
            rw [resolve_unclaimed quiet claimed]
            rfl
          have answer : resolve host B y w₁ = (.of d, w₂) := by
            rw [← resolve_outer merges claimed]
            exact reacts
          exact ih_outer.after fun levels => .innerRound drive asks (.yields answer levels)
        · have answer : resolve host A y w₁ = (.of d, w₂) := by
            rw [← resolve_inner merges claimed]
            exact reacts
          exact (ih_inner (.of_about claimed (about_resolve claimed answer))).after
            (.innerRound drive answer)
    exact ⟨fun _ => inner, inner.after (.drives rfl rfl)⟩

/-- What both loops do, the merged loop does. -/
theorem merged_of_levels {level : Level} {w w' : W} {o' : Except Error (Move Phase)}
    {l' : Life Phase} (h : Levels host A B c level w o' l' w') (fits : Fits A level) :
    Merging host A B M c level w o' l' w' := by
  induction h with
  | innerFailed sealed => exact fun _ => ⟨_, _, .failed, agree_error mints sealed⟩
  | @innerBroken v w e w₁ o' l' w' drive _ ih =>
    refine (ih trivial).after fun h => ?_
    cases h
    exact .broken (Exec.ends_const.mpr drive)
  | @innerRound v w step w₁ d w₂ o' l' w' drive reacts _ ih =>
    have drive : Exec.Ends (fun _ => c v) w (.ok step) w₁ := Exec.ends_const.mpr drive
    cases step with
    | completed r =>
      obtain ⟨rfl, rfl⟩ := Exec.pure_eq_of.mp reacts
      exact (ih trivial).after fun h => .round drive (Exec.ends_const.mpr rfl) h
    | suspended y =>
      by_cases claimed : A.claim y = .unclaimed
      · have asks : resolve host A y w₁ = (.of d, w₂) := reacts
        rw [resolve_unclaimed quiet claimed] at asks
        obtain ⟨rfl, rfl⟩ := Exec.pure_eq_of.mp asks
        exact (ih claimed).after fun ⟨d, w₃, answer, runs⟩ =>
          .round drive (Exec.ends_const.mpr answer) runs
      · have shared : Shared A d := .of_about claimed (about_resolve claimed reacts)
        have answer : resolve host M y w₁ = (.of d, w₂) := by
          rw [resolve_inner merges claimed]
          exact reacts
        exact (ih (.of_shared shared)).after fun h =>
          .round drive (Exec.ends_const.mpr answer) ((merged_of_shared shared).mp h)
  | completes => exact fun _ => ⟨_, _, .stop, agree_complete⟩
  | @yields x phase w d w₁ o' l' w' reacts rest ih =>
    match phase, fits with
    | .forwarding, unclaimed =>
      have answer : resolve host M x w = (.of d, w₁) := by
        rw [resolve_outer merges unclaimed]
        exact reacts
      exact (ih rfl).after fun h => ⟨d, w₁, answer, h⟩
    | .handlerBody n a token, fits =>
      -- Only here does it matter what the body yields: the outer loop would look it up.
      obtain ⟨_, _, _, ⟨⟩, claimed⟩ := fits
      intro reserved
      have unclaimed := reserved _ _ .stop x n a token rfl claimed
      rw [resolve_unclaimed quiet unclaimed] at reacts
      obtain ⟨rfl, rfl⟩ := Exec.pure_eq_of.mp reacts
      cases rest
      exact ⟨_, _, .stop, fun _ _ => Iff.rfl, .inner claimed⟩
  | failed =>
    obtain rfl := fits
    exact fun _ => ⟨_, _, .failed, agree_refl_of_asked⟩
  | stops =>
    obtain rfl := fits
    exact fun _ => ⟨_, _, .stop, agree_refl_of_asked⟩
  | drives entry taken _ ih =>
    obtain rfl := fits
    obtain ⟨rfl, rfl⟩ := Prod.mk.inj (Option.some.inj entry)
    obtain ⟨rfl, rfl⟩ := Exec.pure_eq_of.mp taken
    exact ih trivial

/-! ## One drive -/

omit mints quiet merges

/-- A computation that a handler of `A` returned yields only what `B` leaves alone. -/
def LeavesAlone (A B : Table) (sight : Sight) (p : W × Life Phase) : Prop :=
  ∀ x n a token, sight = .ok (.suspended x) → p.2 = .suspended (.handlerBody n a token) →
    A.claim a ≠ .unclaimed → B.claim x = .unclaimed

theorem reserved_of_sealed {o : Except Error (Move Phase)} {w₁ w' : W} {sight : Sight}
    (sealed : Life.seal host.mint o w₁ = (.of sight, w'))
    (h : LeavesAlone A B sight (w', Life.left o)) : Reserved A B o := by
  rintro x n a token rfl claimed
  obtain ⟨rfl, -⟩ := Exec.pure_eq_of.mp sealed
  exact h x n a token rfl rfl claimed

theorem reserved_of_safe {lm : Life Phase} {v u : Value} {phase : Phase} {w w₀ : W}
    {d : Except Error Decision} (entry : lm.enters? v = some (phase, u))
    (taken : takeUp host phase u w = (.of d, w₀))
    (safe : ∀ sight p, Exec.Ends (fun b => handling host M c b v) (w, lm) sight p →
      LeavesAlone A B sight p) {o : Except Error (Move Phase)} {w₁ : W}
    (runs : Runs (fun _ => host) M (fun _ => c) d w₀ o w₁) : Reserved A B o := by
  rintro x n a token rfl claimed
  have drive : Exec.Ends (fun b => handling host M c b v) (w, lm) (.ok (.suspended x))
      (w₁, .suspended (.handlerBody n a token)) :=
    (handling_entered_const entry).mpr ⟨d, w₀, _, w₁, taken, runs, rfl, rfl⟩
  exact safe _ _ drive x n a token rfl rfl claimed

include mints quiet merges

theorem nested_of_merged {lm li lo lm' : Life Phase} (lives : Nested A lm li lo) {v : Value}
    {w w' : W} {sight : Sight} (alone : LeavesAlone A B sight (w', lm'))
    (drive : Exec.Ends (fun b => handling host M c b v) (w, lm) sight (w', lm')) :
    ∃ li' lo', Exec.Ends (fun b => nested host A B c b v) ((w, li), lo) sight ((w', li'), lo') ∧
      Nested A lm' li' lo' := by
  cases lives with
  | fresh =>
    obtain ⟨d, w₀, o, w₁, taken, runs, sealed, rfl⟩ := (handling_entered_const rfl).mp drive
    obtain ⟨rfl, rfl⟩ := Exec.pure_eq_of.mp taken
    obtain ⟨o', l', w₂, levels, hseal, hlives⟩ :=
      (follow_of_runs mints quiet merges runs (reserved_of_sealed sealed alone)).1 trivial
    exact ⟨l', _, (nested_entered mints (drivable_fresh _) rfl).mpr ⟨_, _, o', w₂, rfl,
      .drives rfl rfl levels, (hseal _ _).mp sealed, rfl⟩, hlives⟩
  | outer =>
    obtain ⟨d, w₀, o, w₁, taken, runs, sealed, rfl⟩ := (handling_entered_const rfl).mp drive
    obtain ⟨o', l', w₂, levels, hseal, hlives⟩ :=
      (follow_of_runs mints quiet merges runs (reserved_of_sealed sealed alone)).2
    exact ⟨l', _, (nested_entered mints (drivable_suspended _) rfl).mpr ⟨d, w₀, o', w₂, taken,
      levels, (hseal _ _).mp sealed, rfl⟩, hlives⟩
  | inner claimed =>
    obtain ⟨d, w₀, o, w₁, taken, runs, sealed, rfl⟩ := (handling_entered_const rfl).mp drive
    obtain ⟨o', l', w₂, levels, hseal, hlives⟩ :=
      (follow_of_runs mints quiet merges runs (reserved_of_sealed sealed alone)).1
        (.of_about claimed (about_runBody taken))
    exact ⟨l', _, (nested_entered mints (drivable_suspended _) rfl).mpr ⟨_, _, o', w₂, rfl,
      .drives rfl taken levels, (hseal _ _).mp sealed, rfl⟩, hlives⟩
  | finished =>
    obtain ⟨rfl, rfl, rfl⟩ := handling_finished_const.mp drive
    exact ⟨_, _, nested_finished.mpr ⟨rfl, rfl, rfl, rfl⟩, .finished⟩

theorem merged_of_nested {lm li lo li' lo' : Life Phase} (lives : Nested A lm li lo) {v : Value}
    {w w' : W} {sight : Sight}
    (safe : ∀ sight p, Exec.Ends (fun b => handling host M c b v) (w, lm) sight p →
      LeavesAlone A B sight p)
    (drive : Exec.Ends (fun b => nested host A B c b v) ((w, li), lo) sight ((w', li'), lo')) :
    ∃ lm', Exec.Ends (fun b => handling host M c b v) (w, lm) sight (w', lm') ∧
      Nested A lm' li' lo' := by
  cases lives with
  | fresh =>
    obtain ⟨d, w₀, o', w₁, taken, levels, sealed, rfl⟩ :=
      (nested_entered mints (drivable_fresh _) rfl).mp drive
    obtain ⟨rfl, rfl⟩ := Exec.pure_eq_of.mp taken
    cases levels with
    | drives entry enters rest =>
      obtain ⟨rfl, rfl⟩ := Prod.mk.inj (Option.some.inj entry)
      obtain ⟨rfl, rfl⟩ := Exec.pure_eq_of.mp enters
      obtain ⟨o, w₂, merged, hseal, hlives⟩ := merged_of_levels mints quiet merges rest trivial
        fun o w₂ h => reserved_of_safe rfl taken safe h
      exact ⟨_, (handling_entered_const rfl).mpr ⟨_, _, o, w₂, taken, merged,
        (hseal _ _).mpr sealed, rfl⟩, hlives⟩
  | outer =>
    obtain ⟨d, w₀, o', w₁, taken, levels, sealed, rfl⟩ :=
      (nested_entered mints (drivable_suspended _) rfl).mp drive
    -- The inner loop rests, so the drive begins with a round of both loops.
    obtain ⟨o, w₂, merged, hseal, hlives⟩ := merged_of_levels mints quiet merges levels rfl
      fun o w₂ h => reserved_of_safe rfl taken safe h
    exact ⟨_, (handling_entered_const rfl).mpr ⟨d, w₀, o, w₂, taken, merged,
      (hseal _ _).mpr sealed, rfl⟩, hlives⟩
  | inner claimed =>
    obtain ⟨d, w₀, o', w₁, taken, levels, sealed, rfl⟩ :=
      (nested_entered mints (drivable_suspended _) rfl).mp drive
    obtain ⟨rfl, rfl⟩ := Exec.pure_eq_of.mp taken
    cases levels with
    | @drives _ _ phase u w d w₀ _ _ _ entry enters rest =>
      obtain ⟨rfl, rfl⟩ := Prod.mk.inj (Option.some.inj entry)
      -- The inner loop goes on with a handler of its own, which the merged loop has called as well.
      have shared : Shared A d := .of_about claimed (about_runBody enters)
      obtain ⟨o, w₂, merged, hseal, hlives⟩ := merged_of_levels mints quiet merges rest
        (.of_shared shared) fun o w₂ h =>
          reserved_of_safe rfl enters safe ((merged_of_shared shared).mp h)
      exact ⟨_, (handling_entered_const rfl).mpr ⟨_, _, o, w₂, enters,
        (merged_of_shared shared).mp merged, (hseal _ _).mpr sealed, rfl⟩, hlives⟩
  | finished =>
    obtain ⟨rfl, rfl, rfl, rfl⟩ := nested_finished.mp drive
    exact ⟨_, handling_finished_const.mpr ⟨rfl, rfl, rfl⟩, .finished⟩

end

/-! ## The whole run -/

theorem shows_nested_iff {host : Host W} (mints : host.Mints) (quiet : ∀ n, host.note n = pure ())
    {A B : Table} (hA : A.Regular) (hB : B.Regular) (c : Source W) {driver : List Value} {w : W}
    (alone : Source.Throughout (handling host (Table.merge [B, A]) c) (fun _ => LeavesAlone A B)
      driver (w, .fresh .start)) (seen : List Sight) (left : W) :
    Source.Shows (handling host (Table.merge [B, A]) c) Prod.fst driver (w, .fresh .start) seen
        left ↔
      Source.Shows (nested host A B c) (fun p => p.1.1) driver ((w, .fresh .start), .fresh .start)
        seen left := by
  refine Source.shows_iff_of_match steady_handling growing_nested (fun _ => LeavesAlone A B)
    (fun p q => p.1 = q.1.1 ∧ Nested A p.2 q.1.2 q.2) (fun h => h.1) ?_ ?_ ?_ alone
  · rintro ⟨w, lm⟩ ⟨⟨_, li⟩, lo⟩ v sight ⟨w', lm'⟩ ⟨rfl, lives⟩ alone drive
    obtain ⟨li', lo', drive', lives'⟩ :=
      nested_of_merged mints quiet (Table.claim_merge hA hB) lives alone drive
    exact ⟨((w', li'), lo'), drive', rfl, lives'⟩
  · rintro ⟨w, lm⟩ ⟨⟨_, li⟩, lo⟩ v sight ⟨⟨w', li'⟩, lo'⟩ ⟨rfl, lives⟩ safe drive
    obtain ⟨lm', drive', lives'⟩ :=
      merged_of_nested mints quiet (Table.claim_merge hA hB) lives safe drive
    exact ⟨(w', lm'), drive', rfl, lives'⟩
  · exact ⟨rfl, .fresh⟩

/-- Handling twice is handling once with the merged table: a driver sees the same, the same entries
are called with the same arguments, and the same world is left. Tables apart can be merged in either
order. -/
theorem nested_iff_merged {host : Host W} (mints : host.Mints) {A B : Table} (hA : A.Regular)
    (hB : B.Regular) (c : Source W) (driver : List Value) (w : W)
    (alone : Source.Throughout (handling host.quiet.recorded (Table.merge [B, A]) c.beside)
      (fun _ => LeavesAlone A B) driver ((w, []), .fresh .start))
    (seen : List Sight) (left : W) (calls : List Host.Call) :
    (Source.Shows (nested host.quiet.recorded A B c.beside) (fun p => p.1.1) driver
        (((w, []), .fresh .start), .fresh .start) seen (left, calls) ↔
      Source.Shows (handling host.quiet.recorded (Table.merge [B, A]) c.beside) Prod.fst driver
        ((w, []), .fresh .start) seen (left, calls)) ∧
    (A.Apart B →
      (Source.Shows (nested host.quiet.recorded A B c.beside) (fun p => p.1.1) driver
        (((w, []), .fresh .start), .fresh .start) seen (left, calls) ↔
      Source.Shows (handling host.quiet.recorded (Table.merge [A, B]) c.beside) Prod.fst driver
        ((w, []), .fresh .start) seen (left, calls))) := by
  have same := shows_nested_iff mints.quiet.recorded (fun _ => rfl) hA hB c.beside alone
    seen (left, calls)
  refine ⟨same.symm, fun apart => ?_⟩
  rw [handling_congr (Table.claim_merge_comm hA hB apart)]
  exact same.symm

/-- A handler whose computation yields a 7, which the outer table leaves alone. -/
theorem nested_iff_merged_small :
    Source.Shows (nested (Host.small (.int 7)).quiet.recorded (.one "a" "get" (.function 0))
      (.one "b" "get" (.int 2)) (Source.asking "a" "get").beside) (fun p => p.1.1) [.nil, .int 0]
      (((none, []), .fresh .start), .fresh .start)
      [.ok (.suspended (.int 7)), .ok (.completed (.int 1))]
      (some (.resume (.int 1)), [⟨.function 0, [.tactics 0]⟩]) := by
  refine (nested_iff_merged (Host.mints_small _) (Table.regular_one _ _ _) (Table.regular_one _ _ _)
    (Source.asking "a" "get") [.nil, .int 0] none ?_ _ _ _).1.mpr ⟨_, ⟨5, rfl⟩, rfl⟩
  refine Source.throughout_cons steady_handling 5 (.ok (.suspended (.int 7))) rfl ?_ ?_
  · rintro x n a token ⟨⟩ - -
    rfl
  refine Source.throughout_cons steady_handling 5 (.ok (.completed (.int 1))) rfl ?_ trivial
  rintro x n a token ⟨⟩

end OneShot.Dispatch
