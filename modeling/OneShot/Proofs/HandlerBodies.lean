import OneShot.Proofs.Enclosing

/-!
# Handler bodies go to the enclosing table

A body is the computation that a handler of the inner table returned. With two loops, the outer one
answers what it yields. With the new entries it is handled on its own, inside the one loop with the
merged table. Nothing is left that tells them apart, as long as no handler of the outer table aborts
an action of a body: that ends both loops, but only one body.
-/

namespace OneShot.Dispatch

variable {W : Type}

/-- A body goes on from a decision about what it has yielded, until the loop around it decides. -/
def Enclosed (host : Host W) (B : Table) (i n : Nat) (a : Value) (token : Nat)
    (d : Except Error Decision) (w : W) (pool : Pool Returned) (d' : Except Error Decision)
    (p' : W × Pool Returned) : Prop :=
  ∃ o w₁ sight w₂, Runs (fun _ => host) B (fun _ => host.drive n) d w o w₁ ∧
    Life.seal host.mint o w₁ = (.of sight, w₂) ∧ Driven host i a token w₂ d' p'.1 sight ∧
    p'.2 = pool.set i (.enclosed n (Life.left o))

/-- The lives of the one loop, with its bodies, and of the inner and the outer loop. -/
inductive Enclosing (pool : Pool Returned) : Life Phase → Life Phase → Life Phase → Prop where
  | fresh : Enclosing pool (.fresh .start) (.fresh .start) (.fresh .start)
  | forwarding : Enclosing pool (.suspended .forwarding) (.suspended .forwarding)
      (.suspended .forwarding)
  /-- A computation that a handler of the outer table returned waits. -/
  | outer {i n a token} (h : pool.get? i = some (.plain n)) :
      Enclosing pool (.suspended (.handlerBody i a token)) (.suspended .forwarding)
        (.suspended (.handlerBody n a token))
  /-- A body waits. -/
  | body {i n a token phase} (h : pool.get? i = some (.enclosed n (.suspended phase))) :
      Enclosing pool (.suspended (.handlerBody i a token)) (.suspended (.handlerBody n a token))
        (.suspended phase)
  | finished {l} : Enclosing pool .finished l .finished

/-- The one loop has ended as both loops have, with matching lives. -/
def Settles (host : Host W) (o : Except Error (Move Phase)) (p : W × Pool Returned)
    (o' : Except Error (Move Phase)) (l' : Life Phase) (w' : W) : Prop :=
  (∀ sight w₁, Life.seal host.mint o p.1 = (.of sight, w₁) ↔
    Life.seal host.mint o' w' = (.of sight, w₁)) ∧ Enclosing p.2 (Life.left o) l' (Life.left o')

/-- No handler of the outer table has aborted an action of a body. -/
def NoAbort (o : Except Error (Move Phase)) (l : Life Phase) : Prop :=
  ∀ r n a token, o = .ok (.complete r) → l ≠ .suspended (.handlerBody n a token)

section

variable {host : Host W} {B : Table} {i n token : Nat} {a : Value}

theorem ends_runBody_enclosed {new : NewEntries} {pool : Pool Returned} {life : Life Phase}
    {v u : Value} {phase : Phase} (h : pool.get? i = some (.enclosed n life))
    (entry : life.enters? v = some (phase, u)) {w : W} {d : Except Error Decision}
    {p' : W × Pool Returned} :
    Exec.Ends (fun b => runBody (enclosing host B new b) i a token v) (w, pool) d p' ↔
      ∃ d₀ w₀, takeUp host phase u w = (.of d₀, w₀) ∧
        Enclosed host B i n a token d₀ w₀ pool d p' := by
  rw [ends_runBody]
  constructor
  · rintro ⟨sight, ⟨w₂, pool₂⟩, drive, driven, hpool⟩
    obtain ⟨life', ends, rfl⟩ := (ends_drive_enclosed h).mp drive
    obtain ⟨d₀, w₀, o, w₁, taken, runs, sealed, rfl⟩ := (handling_entered_const entry).mp ends
    exact ⟨d₀, w₀, taken, o, w₁, sight, w₂, runs, sealed, driven, hpool⟩
  · rintro ⟨d₀, w₀, taken, o, w₁, sight, w₂, runs, sealed, driven, hpool⟩
    exact ⟨sight, (w₂, pool.set i (.enclosed n (Life.left o))), (ends_drive_enclosed h).mpr
      ⟨_, (handling_entered_const entry).mpr ⟨d₀, w₀, o, w₁, taken, runs, sealed, rfl⟩, rfl⟩,
      driven, hpool⟩

theorem Enclosed.round {v : Value} {step : Step} {d d' : Except Error Decision} {w w₁ w₂ : W}
    {pool : Pool Returned} {p' : W × Pool Returned} (drive : host.drive n v w = (.ok step, w₁))
    (reacts : react host B step w₁ = (.of d, w₂))
    (rest : Enclosed host B i n a token d w₂ pool d' p') :
    Enclosed host B i n a token (.ok (.proceed v)) w pool d' p' := by
  obtain ⟨o, w₃, sight, w₄, runs, rest⟩ := rest
  exact ⟨o, w₃, sight, w₄, .round (Exec.ends_const.mpr drive) (Exec.ends_const.mpr reacts) runs,
    rest⟩

theorem Enclosed.failed {e e' : Error} {w w' : W} (pool : Pool Returned)
    (sealed : Life.seal host.mint (.error e : Except Error (Move Phase)) w = (.raised e', w')) :
    Enclosed host B i n a token (.error e) w pool (.error e')
      (w', pool.set i (.enclosed n .finished)) :=
  ⟨.error e, w, .error e', w', .failed, sealed, ⟨rfl, rfl⟩, rfl⟩

theorem Enclosed.broken {v : Value} {e e' : Error} {w w₁ w' : W} (pool : Pool Returned)
    (drive : host.drive n v w = (.raised e, w₁))
    (sealed : Life.seal host.mint (.error e : Except Error (Move Phase)) w₁ = (.raised e', w')) :
    Enclosed host B i n a token (.ok (.proceed v)) w pool (.error e')
      (w', pool.set i (.enclosed n .finished)) :=
  ⟨.error e, w₁, .error e', w', .broken (Exec.ends_const.mpr drive), sealed, ⟨rfl, rfl⟩, rfl⟩

theorem Enclosed.suspends {x : Value} {phase : Phase} {w : W} (pool : Pool Returned) :
    Enclosed host B i n a token (.ok (.stop (.suspend x phase))) w pool
      (.ok (.stop (.suspend x (.handlerBody i a token))))
      (w, pool.set i (.enclosed n (.suspended phase))) :=
  ⟨.ok (.suspend x phase), w, .ok (.suspended x), w, .stop, rfl, ⟨rfl, rfl⟩, rfl⟩

theorem Enclosed.completes {v r : Value} {d : Except Error Decision} {w w₁ w' : W}
    (pool : Pool Returned) (drive : host.drive n v w = (.ok (.completed r), w₁))
    (concluded : conclude host a token w₁ = (.of d, w')) :
    Enclosed host B i n a token (.ok (.proceed v)) w pool d
      (w', pool.set i (.enclosed n .finished)) :=
  have reacts : Exec.Ends (fun _ => react host B (.completed r)) w₁ (.ok (.stop (.complete r)))
      w₁ := Exec.ends_const.mpr rfl
  ⟨.ok (.complete r), w₁, .ok (.completed r), w₁, .round (Exec.ends_const.mpr drive) reacts .stop,
    rfl, concluded, rfl⟩

theorem settles_refl {o : Except Error (Move Phase)} {w : W} {pool : Pool Returned} {l : Life Phase}
    (lives : Enclosing pool (Life.left o) l (Life.left o)) : Settles host o (w, pool) o l w :=
  ⟨fun _ _ => Iff.rfl, lives⟩

theorem settles_of_plain {move move' : Move Phase} {pool : Pool Returned}
    (plain : Plain pool (.ok (.stop move)) (.ok (.stop move'))) (w : W) :
    Settles host (.ok move') (w, pool) (.ok move) (.suspended .forwarding) w := by
  cases plain with
  | settled settled =>
    cases move with
    | complete r => exact settles_refl .finished
    | suspend x phase => exact settled.elim
  | forwarding => exact settles_refl .forwarding
  | body hi => exact ⟨fun _ _ => Iff.rfl, .outer hi⟩

theorem settles_error (mints : host.Mints) {e e' : Error} {w w' : W} {pool : Pool Returned}
    {l : Life Phase}
    (h : Life.seal host.mint (.error e : Except Error (Move Phase)) w = (.raised e', w')) :
    Settles host (.error e) (w, pool) (.error e') l w' ∧
      Settles host (.error e') (w', pool) (.error e) l w := by
  have same := Life.seal_again (T := Phase) mints h
  exact ⟨⟨same, .finished⟩, ⟨fun sight w₂ => (same sight w₂).symm, .finished⟩⟩

end

/-! ## From both loops to one -/

abbrev OneLoop (host : Host W) (B M : Table) (new : NewEntries) (c : Source W) :=
  Runs (enclosing host B new) M fun _ => (c.beside : Source (W × Pool Returned))

/-- The one loop goes on from a decision to an end that both loops have. -/
def Ending (host : Host W) (B M : Table) (new : NewEntries) (c : Source W)
    (d : Except Error Decision) (p : W × Pool Returned) (o' : Except Error (Move Phase))
    (l' : Life Phase) (w' : W) : Prop :=
  ∃ o p', OneLoop host B M new c d p o p' ∧ Settles host o p' o' l' w'

/-- A body goes on from a decision, and then the one loop, to an end that both loops have. -/
def BodyEnding (host : Host W) (B M : Table) (new : NewEntries) (c : Source W) (i n : Nat)
    (a : Value) (token : Nat) (d : Except Error Decision) (w : W) (pool : Pool Returned)
    (o' : Except Error (Move Phase)) (l' : Life Phase) (w' : W) : Prop :=
  ∃ d' p, Enclosed host B i n a token d w pool d' p ∧ Ending host B M new c d' p o' l' w'

/-- Where both loops are, so is the one loop, with any pool that holds the bodies. -/
def Keeps (host : Host W) (A B M : Table) (new : NewEntries) (c : Source W) (w : W)
    (o' : Except Error (Move Phase)) (l' : Life Phase) (w' : W) : Level → Prop
  | .inner (.ok (.stop (.suspend y .forwarding))) => A.claim y = .unclaimed → ∀ pool, ∃ d p,
    Exec.Ends (fun b => resolve (enclosing host B new b) M y) (w, pool) d p ∧
      Ending host B M new c d p o' l' w'
  | .inner (.ok (.stop (.suspend x (.handlerBody n a token)))) => ∀ pool i life,
    pool.get? i = some (.enclosed n life) → ∃ d w₁, resolve host B x w = (.of d, w₁) ∧
      BodyEnding host B M new c i n a token d w₁ pool o' l' w'
  | .inner (.ok (.stop (.suspend _ .start))) => True
  | .inner d => ∀ pool, Ending host B M new c d (w, pool) o' l' w'
  | .outer l d =>
    (l = .suspended .forwarding → ∀ pool d', Plain pool d d' →
      Ending host B M new c d' (w, pool) o' l' w') ∧
    ∀ n a token, l = .suspended (.handlerBody n a token) → ∀ pool i life,
      pool.get? i = some (.enclosed n life) →
      BodyEnding host B M new c i n a token d w pool o' l' w'

section Forth

variable {host : Host W} {A B M : Table} {new : NewEntries} {c : Source W}
  {o' : Except Error (Move Phase)} {l' : Life Phase} {w w' : W} {d : Except Error Decision}

theorem Ending.round {v : Value} {step : Step} {d : Except Error Decision} {w w₁ : W}
    {pool : Pool Returned} {p : W × Pool Returned} (drive : c v w = (.ok step, w₁))
    (reacts : Exec.Ends (fun b => react (enclosing host B new b) M step) (w₁, pool) d p)
    (ending : Ending host B M new c d p o' l' w') :
    Ending host B M new c (.ok (.proceed v)) (w, pool) o' l' w' := by
  obtain ⟨o, p', runs, settles⟩ := ending
  have drive' : Exec.Ends (fun _ => c.beside v) (w, pool) (.ok step) (w₁, pool) :=
    Exec.ends_const.mpr (Exec.beside_eq.mpr ⟨drive, rfl⟩)
  exact ⟨o, p', .round drive' reacts runs, settles⟩

theorem keeps_settled (settled : Settled d) :
    Keeps host A B M new c w o' l' w' (.inner d) ↔
      ∀ pool, Ending host B M new c d (w, pool) o' l' w' := by
  match d with
  | .error e => exact Iff.rfl
  | .ok (.proceed v) => exact Iff.rfl
  | .ok (.stop (.complete r)) => exact Iff.rfl

theorem bodyEnding_of_driven {n token : Nat} {a v : Value} {w₁ w₂ : W} {sight : Sight}
    (drive : host.drive n v w = (.of sight, w₁)) (driven : Driven host n a token w₁ d w₂ sight)
    (levels : Levels host A B c (.inner d) w₂ o' l' w')
    (keeps : Keeps host A B M new c w₂ o' l' w' (.inner d)) {pool : Pool Returned} {i : Nat}
    {life : Life Phase} (h : pool.get? i = some (.enclosed n life)) :
    BodyEnding host B M new c i n a token (.ok (.proceed v)) w pool o' l' w' := by
  rcases sight with e | x | r
  · obtain ⟨rfl, rfl⟩ := driven
    cases levels with
    | innerFailed sealed =>
      exact ⟨_, _, .broken pool drive sealed, _, _, .failed, settles_refl .finished⟩
  · obtain ⟨rfl, rfl⟩ := driven
    obtain ⟨d, w₃, answer, d', p, enclosed, ending⟩ := keeps pool i life h
    exact ⟨d', p, enclosed.round drive answer, ending⟩
  · have ending := (keeps_settled (settled_conclude driven)).mp keeps
      (pool.set i (.enclosed n .finished))
    exact ⟨d, _, .completes pool drive driven, ending⟩

theorem ending_of_claimed (quiet : ∀ n, host.note n = pure ()) (merges : Merges new A B M)
    {y : Value} (claimed : A.claim y ≠ .unclaimed) {w₁ : W}
    (run : resolve host A y w = (.of d, w₁)) (levels : Levels host A B c (.inner d) w₁ o' l' w')
    (keeps : Keeps host A B M new c w₁ o' l' w' (.inner d)) (pool : Pool Returned) :
    ∃ d' p, Exec.Ends (fun b => resolve (enclosing host B new b) M y) (w, pool) d' p ∧
      Ending host B M new c d' p o' l' w' := by
  rcases uncalled_or_called A y with h | ⟨f, hclaim, callable⟩
  · have same := merges.uncalled claimed h
    have uncalled : Uncalled M y := fun f hf => h f (same.symm.trans hf)
    have settled := settled_of_uncalled h claimed run
    rw [← resolve_congr same] at run
    simp only [resolve_uncalled uncalled]
    exact ⟨d, (w₁, pool), Exec.ends_const.mpr (Exec.beside_eq.mpr ⟨run, rfl⟩),
      (keeps_settled settled).mp keeps pool⟩
  · have hmake := merges.called hclaim callable
    rw [resolve_call hclaim callable] at run
    simp only [resolve_call hmake (new.callable_make f), ends_callHandler quiet (.made f)]
    obtain ⟨r, w₂, hcalled, rest⟩ := (callHandler_eq quiet).mp run
    rcases r with e | ⟨token, _ | n⟩
    · have settled : Settled d := by
        rw [rest.1]
        trivial
      exact ⟨d, (w₁, pool), ⟨_, w₂, hcalled, rest, rfl⟩, (keeps_settled settled).mp keeps pool⟩
    · exact ⟨d, (w₁, pool), ⟨_, w₂, hcalled, rest, rfl⟩,
        (keeps_settled (settled_conclude rest)).mp keeps pool⟩
    · obtain ⟨sight, w₃, drive, driven⟩ := runBody_eq.mp rest
      have hi := Pool.get?_next pool (.enclosed n (.fresh .start))
      obtain ⟨d', p, enclosed, ending⟩ := bodyEnding_of_driven drive driven levels keeps hi
      exact ⟨d', p, ⟨_, w₂, hcalled, (ends_runBody_enclosed hi rfl).mpr ⟨_, _, rfl, enclosed⟩⟩,
        ending⟩

/-- What both loops do, the one loop does. -/
theorem keeps_of_levels (mints : host.Mints) (quiet : ∀ n, host.note n = pure ())
    (merges : Merges new A B M) {level : Level}
    (h : Levels host A B c level w o' l' w') (noAbort : NoAbort o' l') :
    Keeps host A B M new c w o' l' w' level := by
  induction h with
  | innerFailed sealed => exact fun pool => ⟨_, _, .failed, (settles_error mints sealed).1⟩
  | @innerBroken v w e w₁ o' l' w' drive _ ih =>
    intro pool
    obtain ⟨o, p, runs, settles⟩ := ih noAbort pool
    cases runs
    have drive' : Exec.Ends (fun _ => c.beside v) (w, pool) (.error e) (w₁, pool) :=
      Exec.ends_const.mpr (Exec.beside_eq.mpr ⟨drive, rfl⟩)
    exact ⟨_, _, .broken drive', settles⟩
  | @innerRound v w step w₁ d w₂ o' l' w' drive reacts rest ih =>
    intro pool
    have ih := ih noAbort
    cases step with
    | completed r =>
      obtain ⟨rfl, rfl⟩ := Exec.pure_eq_of.mp reacts
      exact .round drive (Exec.ends_const.mpr rfl) (ih pool)
    | suspended y =>
      by_cases claimed : A.claim y = .unclaimed
      · have asks : resolve host A y w₁ = (.of d, w₂) := reacts
        rw [resolve_unclaimed quiet claimed] at asks
        obtain ⟨rfl, rfl⟩ := Exec.pure_eq_of.mp asks
        obtain ⟨d, p, answer, ending⟩ := ih claimed pool
        exact .round drive answer ending
      · obtain ⟨d, p, answer, ending⟩ := ending_of_claimed quiet merges claimed reacts rest ih pool
        exact .round drive answer ending
  | completes => exact fun pool => ⟨_, _, .stop, settles_refl .finished⟩
  | @yields x phase w d w₁ o' l' w' reacts rest ih =>
    obtain ⟨ih_main, ih_body⟩ := ih noAbort
    match phase with
    | .start => trivial
    | .forwarding =>
      -- An action of the source, which the one loop answers itself.
      intro unclaimed pool
      obtain ⟨d', pool', answer, plain⟩ :=
        resolve_forth quiet (merges.unclaimed unclaimed) (merges.kept x) reacts pool
      exact ⟨d', _, answer, ih_main rfl pool' d' plain⟩
    | .handlerBody n a token =>
      -- An action of a body, which the loop around the body answers.
      exact fun pool i life hi => ⟨d, w₁, reacts, ih_body n a token rfl pool i life hi⟩
  | @failed l e w =>
    refine ⟨fun _ pool d' plain => ?_, fun n a token _ pool i life _ => ?_⟩
    · cases plain
      exact ⟨_, _, .failed, settles_refl .finished⟩
    · obtain ⟨e', w₁, sealed, -⟩ := Life.seal_error (S := Phase) mints e w
      exact ⟨_, _, .failed pool sealed, _, _, .failed, (settles_error mints sealed).2⟩
  | @stops l move w =>
    refine ⟨fun hl pool d' plain => ?_, fun n a token hl pool i life hi => ?_⟩
    · subst hl
      obtain ⟨move', rfl⟩ := plain.stops
      exact ⟨_, _, .stop, settles_of_plain plain w⟩
    · cases move with
      -- Without an abort, the outer loop does not complete while the inner one waits for a body.
      | complete r => exact absurd hl (noAbort r n a token rfl)
      | suspend x phase =>
        subst hl
        exact ⟨_, _, .suspends pool, _, _, .stop, fun _ _ => Iff.rfl,
          .body (Pool.get?_set_self hi _)⟩
  | @drives l v phase u w d w₁ o' l' w' entry taken rest ih =>
    have ih := ih noAbort
    refine ⟨fun hl pool d' plain => ?_, fun n a token hl pool i life hi => ?_⟩
    · subst hl
      obtain ⟨rfl, rfl⟩ := Prod.mk.inj (Option.some.inj entry)
      obtain ⟨rfl, rfl⟩ := Exec.pure_eq_of.mp taken
      cases plain
      exact ih pool
    · subst hl
      obtain ⟨rfl, rfl⟩ := Prod.mk.inj (Option.some.inj entry)
      obtain ⟨sight, w₂, drive, driven⟩ := runBody_eq.mp taken
      exact bodyEnding_of_driven drive driven rest ih hi

end Forth

/-! ## From one loop to both -/

/-- Both loops go on from here to an end that the one loop has. -/
def BothEnding (host : Host W) (A B : Table) (c : Source W) (level : Level) (w : W)
    (o : Except Error (Move Phase)) (p : W × Pool Returned) : Prop :=
  ∃ o' l' w', Levels host A B c level w o' l' w' ∧ Settles host o p o' l' w'

/-- No end of both loops from here is by an abort of an action of a body. -/
def Safe (host : Host W) (A B : Table) (c : Source W) (level : Level) (w : W) : Prop :=
  ∀ o' l' w', Levels host A B c level w o' l' w' → NoAbort o' l'

section Back

variable {host : Host W} {A B M : Table} {new : NewEntries} {c : Source W}

theorem BothEnding.after {level level' : Level} {w w₀ : W} {o : Except Error (Move Phase)}
    {p : W × Pool Returned} (h : Safe host A B c level w → BothEnding host A B c level w o p)
    (safe : Safe host A B c level' w₀)
    (before : ∀ {o' l' w'}, Levels host A B c level w o' l' w' →
      Levels host A B c level' w₀ o' l' w') : BothEnding host A B c level' w₀ o p := by
  obtain ⟨o', l', w', levels, settles⟩ := h fun o' l' w' h => safe o' l' w' (before h)
  exact ⟨o', l', w', before levels, settles⟩

variable (mints : host.Mints)

include mints

theorem bothEnding_of_enclosed {i n token : Nat} {a : Value} {d d' : Except Error Decision} {w : W}
    {pool : Pool Returned} {p₁ p' : W × Pool Returned} {o : Except Error (Move Phase)}
    (enclosed : Enclosed host B i n a token d w pool d' p₁) {life : Life Phase}
    (hi : pool.get? i = some (.enclosed n life)) (loop : OneLoop host B M new c d' p₁ o p')
    (goesOn : Settled d' → Safe host A B c (.inner d') p₁.1 →
      BothEnding host A B c (.inner d') p₁.1 o p')
    (safe : Safe host A B c (.outer (.suspended (.handlerBody n a token)) d) w) :
    BothEnding host A B c (.outer (.suspended (.handlerBody n a token)) d) w o p' := by
  obtain ⟨ob, w₁, sight, w₂, runs, sealed, driven, hpool⟩ := enclosed
  -- The loop around the body becomes the outer loop, round by round.
  induction runs with
  | @failed e w =>
    obtain ⟨e', rfl⟩ := Life.error_of_seal mints sealed
    obtain ⟨rfl, hw⟩ := driven
    cases loop
    obtain ⟨w₄, pool'⟩ := p₁
    obtain rfl : w₄ = w₂ := hw
    exact ⟨_, _, _, .failed, (settles_error mints sealed).2⟩
  | @stop move w =>
    cases move with
    | complete r => exact absurd rfl (safe _ _ _ .stops r n a token rfl)
    | suspend x phase =>
      obtain ⟨rfl, rfl⟩ := Exec.pure_eq_of.mp sealed
      obtain ⟨rfl, hw⟩ := driven
      cases loop
      obtain ⟨w₄, pool'⟩ := p₁
      obtain rfl : w₄ = w₂ := hw
      obtain rfl : pool' = _ := hpool
      exact ⟨_, _, _, .stops, fun _ _ => Iff.rfl, .body (Pool.get?_set_self hi _)⟩
  | @broken v w e w₁ drive =>
    obtain ⟨e', rfl⟩ := Life.error_of_seal mints sealed
    obtain ⟨rfl, hw⟩ := driven
    cases loop
    obtain ⟨w₄, pool'⟩ := p₁
    obtain rfl : w₄ = w₂ := hw
    have taken : runBody host n a token v w = (.of (.error e), w₁) :=
      runBody_eq.mpr ⟨.error e, w₁, Exec.ends_const.mp drive, rfl, rfl⟩
    exact ⟨_, _, _, .drives rfl taken (.innerFailed sealed), settles_refl .finished⟩
  | @round v w step w₁ d₁ w₄ ob w₃ drive reacts rest ih =>
    have drive := Exec.ends_const.mp drive
    have reacts := Exec.ends_const.mp reacts
    cases step with
    | completed r =>
      obtain ⟨rfl, rfl⟩ := Exec.pure_eq_of.mp reacts
      cases rest
      obtain ⟨rfl, rfl⟩ := Exec.pure_eq_of.mp sealed
      have taken : runBody host n a token v w = (.of d', p₁.1) :=
        runBody_eq.mpr ⟨_, _, drive, driven⟩
      exact .after (goesOn (settled_conclude driven)) safe (.drives rfl taken)
    | suspended x =>
      have taken : runBody host n a token v w =
          (.of (.ok (.stop (.suspend x (.handlerBody n a token)))), w₁) :=
        runBody_eq.mpr ⟨_, w₁, drive, rfl, rfl⟩
      exact .after (fun safe => ih safe sealed hpool) safe fun levels =>
        .drives rfl taken (.yields reacts levels)

theorem bothEnding_of_claimed (quiet : ∀ n, host.note n = pure ()) (merges : Merges new A B M)
    {y v : Value} (claimed : A.claim y ≠ .unclaimed) {w w₁ : W} {pool : Pool Returned}
    {d' : Except Error Decision}
    {p₂ p' : W × Pool Returned} {o : Except Error (Move Phase)}
    (drive : c v w = (.ok (.suspended y), w₁))
    (reacts : Exec.Ends (fun b => resolve (enclosing host B new b) M y) (w₁, pool) d' p₂)
    (loop : OneLoop host B M new c d' p₂ o p')
    (goesOn : Settled d' → Safe host A B c (.inner d') p₂.1 →
      BothEnding host A B c (.inner d') p₂.1 o p')
    (safe : Safe host A B c (.inner (.ok (.proceed v))) w) :
    BothEnding host A B c (.inner (.ok (.proceed v))) w o p' := by
  -- Where the one loop decides at once, the inner loop makes the same decision.
  have decided (settled : Settled d') (run : resolve host A y w₁ = (.of d', p₂.1)) :
      BothEnding host A B c (.inner (.ok (.proceed v))) w o p' :=
    .after (goesOn settled) safe (.innerRound drive run)
  rcases uncalled_or_called A y with h | ⟨f, hclaim, callable⟩
  · have same := merges.uncalled claimed h
    have uncalled : Uncalled M y := fun f hf => h f (same.symm.trans hf)
    simp only [resolve_uncalled uncalled] at reacts
    obtain ⟨w₂, pool₂⟩ := p₂
    obtain ⟨run, rfl⟩ := Exec.beside_eq.mp (Exec.ends_const.mp reacts)
    rw [resolve_congr same] at run
    exact decided (settled_of_uncalled h claimed run) run
  · have hmake := merges.called hclaim callable
    simp only [resolve_call hmake (new.callable_make f)] at reacts
    obtain ⟨r, w₂, hcalled, rest⟩ := (ends_callHandler quiet (.made f)).mp reacts
    have answer {d : Except Error Decision} {w₃ : W} (h : Called host y w₂ d w₃ r) :
        resolve host A y w₁ = (.of d, w₃) := by
      rw [resolve_call hclaim callable]
      exact (callHandler_eq quiet).mpr ⟨r, w₂, hcalled, h⟩
    rcases r with e | ⟨token, _ | n⟩
    · refine decided ?_ (answer rest.1)
      rw [rest.1.1]
      trivial
    · exact decided (settled_conclude rest.1) (answer rest.1)
    · -- The body begins. Both loops drive it as if the outer one had asked for it.
      have hi := Pool.get?_next pool (.enclosed n (.fresh .start))
      obtain ⟨d₀, w₃, taken, enclosed⟩ := (ends_runBody_enclosed hi rfl).mp rest
      obtain ⟨rfl, rfl⟩ := Exec.pure_eq_of.mp taken
      refine .after (bothEnding_of_enclosed mints enclosed hi loop goesOn) safe fun levels => ?_
      cases levels with
      | drives entry runs rest =>
        obtain ⟨rfl, rfl⟩ := Prod.mk.inj (Option.some.inj entry)
        exact .innerRound drive (answer runs) rest

/-- What the one loop does, both loops do. -/
theorem bothEnding_of_loop (quiet : ∀ n, host.note n = pure ()) (merges : Merges new A B M)
    {d' : Except Error Decision}
    {p p' : W × Pool Returned} {o : Except Error (Move Phase)}
    (loop : OneLoop host B M new c d' p o p') :
    (Settled d' → Safe host A B c (.inner d') p.1 → BothEnding host A B c (.inner d') p.1 o p') ∧
      ∀ d, Plain p.2 d d' → Safe host A B c (.outer (.suspended .forwarding) d) p.1 →
        BothEnding host A B c (.outer (.suspended .forwarding) d) p.1 o p' := by
  -- The outer loop drives an inner one that goes on with the value.
  have outer {v : Value} {w : W} {o : Except Error (Move Phase)} {p' : W × Pool Returned}
      (inner : Safe host A B c (.inner (.ok (.proceed v))) w →
        BothEnding host A B c (.inner (.ok (.proceed v))) w o p') {pool : Pool Returned}
      {d : Except Error Decision} (plain : Plain pool d (.ok (.proceed v)))
      (safe : Safe host A B c (.outer (.suspended .forwarding) d) w) :
      BothEnding host A B c (.outer (.suspended .forwarding) d) w o p' := by
    cases plain
    exact .after inner safe (.drives rfl rfl)
  induction loop with
  | @failed e p =>
    refine ⟨fun _ _ => ?_, fun d plain _ => ?_⟩
    · obtain ⟨e', w', sealed, -⟩ := Life.seal_error (S := Phase) mints e p.1
      exact ⟨_, _, _, .innerFailed sealed, (settles_error mints sealed).1⟩
    · cases plain
      exact ⟨_, _, _, .failed, settles_refl .finished⟩
  | @stop move p =>
    refine ⟨fun settled _ => ?_, fun d plain _ => ?_⟩
    · cases move with
      | complete r => exact ⟨_, _, _, .completes, settles_refl .finished⟩
      | suspend x phase => exact settled.elim
    · obtain ⟨move', rfl⟩ := plain.stopped
      exact ⟨_, _, _, .stops, settles_of_plain plain p.1⟩
  | @broken v p e p' drive =>
    obtain ⟨w₁, pool₁⟩ := p'
    obtain ⟨hdrive, -⟩ := Exec.beside_eq.mp (Exec.ends_const.mp drive)
    have inner (_ : Safe host A B c (.inner (.ok (.proceed v))) p.1) :
        BothEnding host A B c (.inner (.ok (.proceed v))) p.1 (.error e) (w₁, pool₁) := by
      obtain ⟨e', w', sealed, -⟩ := Life.seal_error (S := Phase) mints e w₁
      exact ⟨_, _, _, .innerBroken hdrive (.innerFailed sealed), (settles_error mints sealed).1⟩
    exact ⟨fun _ => inner, fun d plain safe => outer inner plain safe⟩
  | @round v p step p₁ d' p₂ o p' drive reacts loop ih =>
    obtain ⟨w₁, pool⟩ := p₁
    obtain ⟨hdrive, -⟩ := Exec.beside_eq.mp (Exec.ends_const.mp drive)
    obtain ⟨ih_inner, ih_outer⟩ := ih
    have inner (safe : Safe host A B c (.inner (.ok (.proceed v))) p.1) :
        BothEnding host A B c (.inner (.ok (.proceed v))) p.1 o p' := by
      cases step with
      | completed r =>
        obtain ⟨rfl, rfl⟩ := Exec.pure_eq_of.mp (Exec.ends_const.mp reacts)
        exact .after (ih_inner trivial) safe (.innerRound hdrive rfl)
      | suspended y =>
        by_cases claimed : A.claim y = .unclaimed
        · have asks : resolve host A y w₁ = (.of (.ok (.stop (.suspend y .forwarding))), w₁) := by
            rw [resolve_unclaimed quiet claimed]
            rfl
          obtain ⟨d, answer, plain⟩ :=
            resolve_back quiet (merges.unclaimed claimed) (merges.kept y) reacts
          exact .after (ih_outer d plain) safe fun levels =>
            .innerRound hdrive asks (.yields answer levels)
        · exact bothEnding_of_claimed mints quiet merges claimed hdrive reacts loop ih_inner safe
    exact ⟨fun _ => inner, fun d plain safe => outer inner plain safe⟩

end Back

/-! ## One drive -/

/-- A drive in which no handler of the outer table aborts an action of a body: where it completes
both loops, the inner one does not wait for a body. -/
def Unaborted (p : (W × Life Phase) × Life Phase) (sight : Sight)
    (p' : (W × Life Phase) × Life Phase) : Prop :=
  p.2 ≠ .finished → ∀ r n a token, sight = .ok (.completed r) →
    p'.1.2 ≠ .suspended (.handlerBody n a token)

/-- The computation that handles a source once, with the merged table and the new entries. -/
def enclosed (host : Host W) (B M : Table) (new : NewEntries) (c : Source W) (bound : Nat) :
    Source ((W × Pool Returned) × Life Phase) :=
  handling (enclosing host B new bound) M c.beside bound

section Drive

variable {host : Host W} {A B M : Table} {new : NewEntries} {c : Source W}

theorem growing_enclosed (v : Value) : Exec.Growing fun b => enclosed host B M new c b v :=
  @growing_handling (W × Pool Returned) (enclosing host B new) M (fun _ => c.beside)
    growing_enclosing (fun _ => Exec.growing_const _) v

theorem enclosed_entered {l l' : Life Phase} {v u : Value} {phase : Phase}
    (entry : l.enters? v = some (phase, u)) {w w' : W} {pool pool' : Pool Returned}
    {sight : Sight} :
    Exec.Ends (fun b => enclosed host B M new c b v) ((w, pool), l) sight ((w', pool'), l') ↔
      ∃ d p o w₁, Exec.Ends (fun b => takeUp (enclosing host B new b) phase u) (w, pool) d p ∧
        OneLoop host B M new c d p o (w₁, pool') ∧ Life.seal host.mint o w₁ = (.of sight, w') ∧
        l' = Life.left o := by
  have h := @handling_entered (W × Pool Returned) (enclosing host B new) M (fun _ => c.beside)
    growing_enclosing (fun _ => Exec.growing_const _) l l' v u phase entry (w, pool) (w', pool')
    sight
  have sealing (o : Except Error (Move Phase)) :
      Life.seal (enclosing host B new 0).mint o = (Life.seal host.mint o).beside :=
    seal_beside host o
  simp only [sealing] at h
  refine h.trans ⟨?_, ?_⟩
  · rintro ⟨d, p, o, ⟨w₁, pool₁⟩, taken, loop, sealed, left⟩
    obtain ⟨hseal, rfl⟩ := Exec.beside_eq.mp sealed
    exact ⟨d, p, o, w₁, taken, loop, hseal, left⟩
  · rintro ⟨d, p, o, w₁, taken, loop, sealed, left⟩
    exact ⟨d, p, o, (w₁, pool'), taken, loop, Exec.beside_eq.mpr ⟨sealed, rfl⟩, left⟩

theorem enclosed_finished {l' : Life Phase} {v : Value} {p p' : W × Pool Returned} {sight : Sight} :
    Exec.Ends (fun b => enclosed host B M new c b v) (p, .finished) sight (p', l') ↔
      sight = .ok (.completed .nil) ∧ l' = .finished ∧ p' = p :=
  @handling_finished (W × Pool Returned) (enclosing host B new) M (fun _ => c.beside)
    growing_enclosing (fun _ => Exec.growing_const _) l' v p p' sight

theorem noAbort_of_sealed {p : (W × Life Phase) × Life Phase} (going : p.2 ≠ .finished)
    {o : Except Error (Move Phase)} {l lo : Life Phase} {w₁ w' : W} {sight : Sight}
    (sealed : Life.seal host.mint o w₁ = (.of sight, w'))
    (h : Unaborted p sight ((w', l), lo)) : NoAbort o l := by
  rintro r n a token rfl
  obtain ⟨rfl, -⟩ := Exec.pure_eq_of.mp sealed
  exact h going r n a token rfl

theorem enclosed_of_ending {lm : Life Phase} {v : Value} (phase : Phase) (u : Value)
    (entry : lm.enters? v = some (phase, u)) {w w₁ w' : W} {pool : Pool Returned}
    {d : Except Error Decision} {p : W × Pool Returned} {o' : Except Error (Move Phase)}
    {l' : Life Phase} {sight : Sight}
    (taken : Exec.Ends (fun b => takeUp (enclosing host B new b) phase u) (w, pool) d p)
    (ending : Ending host B M new c d p o' l' w₁)
    (sealed : Life.seal host.mint o' w₁ = (.of sight, w')) :
    ∃ q lm', Exec.Ends (fun b => enclosed host B M new c b v) ((w, pool), lm) sight ((w', q), lm') ∧
      Enclosing q lm' l' (Life.left o') := by
  obtain ⟨o, ⟨w₂, pool'⟩, loop, hseal, lives⟩ := ending
  exact ⟨pool', _, (enclosed_entered entry).mpr ⟨d, p, o, w₂, taken, loop, (hseal _ _).mpr sealed,
    rfl⟩, lives⟩

theorem safe_of_unaborted (mints : host.Mints) {li lo : Life Phase} (drivable : Drivable li)
    {v : Value} (phase : Phase) (u : Value) (entry : lo.enters? v = some (phase, u)) {w w₀ : W}
    {d : Except Error Decision} (taken : takeUp host phase u w = (.of d, w₀))
    (safe : ∀ sight p, Exec.Ends (fun b => nested host A B c b v) ((w, li), lo) sight p →
      Unaborted ((w, li), lo) sight p) : Safe host A B c (.outer li d) w₀ := by
  rintro o' l' w' levels r n a token rfl
  have drive : Exec.Ends (fun b => nested host A B c b v) ((w, li), lo) (.ok (.completed r))
      ((w', l'), .finished) :=
    (nested_entered mints drivable entry).mpr ⟨d, w₀, _, w', taken, levels, rfl, rfl⟩
  exact safe _ _ drive (Life.going_of_entry entry) r n a token rfl

theorem nested_of_both (mints : host.Mints) {li lo : Life Phase} (drivable : Drivable li)
    {v : Value} (phase : Phase) (u : Value) (entry : lo.enters? v = some (phase, u))
    {w w₀ w₁ w' : W} {pool' : Pool Returned} {d : Except Error Decision}
    {o : Except Error (Move Phase)} {sight : Sight} (taken : takeUp host phase u w = (.of d, w₀))
    (both : BothEnding host A B c (.outer li d) w₀ o (w₁, pool'))
    (sealed : Life.seal host.mint o w₁ = (.of sight, w')) :
    ∃ li' lo', Exec.Ends (fun b => nested host A B c b v) ((w, li), lo) sight ((w', li'), lo') ∧
      Enclosing pool' (Life.left o) li' lo' := by
  obtain ⟨o', l', w₂, levels, hseal, lives⟩ := both
  exact ⟨l', _, (nested_entered mints drivable entry).mpr ⟨d, w₀, o', w₂, taken, levels,
    (hseal _ _).mp sealed, rfl⟩, lives⟩

variable (mints : host.Mints) (quiet : ∀ n, host.note n = pure ()) (merges : Merges new A B M)

include mints quiet merges

theorem enclosed_of_nested {pool : Pool Returned} {lm li lo li' lo' : Life Phase}
    (lives : Enclosing pool lm li lo) {v : Value} {w w' : W} {sight : Sight}
    (unaborted : Unaborted ((w, li), lo) sight ((w', li'), lo'))
    (drive : Exec.Ends (fun b => nested host A B c b v) ((w, li), lo) sight ((w', li'), lo')) :
    ∃ q lm', Exec.Ends (fun b => enclosed host B M new c b v) ((w, pool), lm) sight ((w', q), lm') ∧
      Enclosing q lm' li' lo' := by
  have keeps {level : Level} {w₀ w₁ : W} {o : Except Error (Move Phase)} (going : lo ≠ .finished)
      (sealed : Life.seal host.mint o w₁ = (.of sight, w'))
      (levels : Levels host A B c level w₀ o li' w₁) : Keeps host A B M new c w₀ o li' w₁ level :=
    keeps_of_levels mints quiet merges levels (noAbort_of_sealed going sealed unaborted)
  cases lives with
  | fresh =>
    obtain ⟨d, w₀, o, w₁, taken, levels, sealed, rfl⟩ :=
      (nested_entered mints (drivable_fresh _) rfl).mp drive
    obtain ⟨rfl, rfl⟩ := Exec.pure_eq_of.mp taken
    cases levels with
    | drives entry enters rest =>
      obtain ⟨rfl, rfl⟩ := Prod.mk.inj (Option.some.inj entry)
      obtain ⟨rfl, rfl⟩ := Exec.pure_eq_of.mp enters
      exact enclosed_of_ending .start .nil rfl (Exec.ends_const.mpr rfl)
        (keeps nofun sealed rest pool) sealed
  | forwarding =>
    obtain ⟨d, w₀, o, w₁, taken, levels, sealed, rfl⟩ :=
      (nested_entered mints (drivable_suspended _) rfl).mp drive
    obtain ⟨rfl, rfl⟩ := Exec.pure_eq_of.mp taken
    exact enclosed_of_ending .forwarding v rfl (Exec.ends_const.mpr rfl)
      ((keeps nofun sealed levels).1 rfl pool _ (.settled trivial)) sealed
  | outer hi =>
    obtain ⟨d, w₀, o, w₁, taken, levels, sealed, rfl⟩ :=
      (nested_entered mints (drivable_suspended _) rfl).mp drive
    obtain ⟨d', ends, plain⟩ := runBody_forth hi taken
    exact enclosed_of_ending (.handlerBody _ _ _) v rfl ends
      ((keeps nofun sealed levels).1 rfl pool _ plain) sealed
  | body hi =>
    obtain ⟨d, w₀, o, w₁, taken, levels, sealed, rfl⟩ :=
      (nested_entered mints (drivable_suspended _) rfl).mp drive
    obtain ⟨d', p, enclosed, ending⟩ := (keeps nofun sealed levels).2 _ _ _ rfl pool _ _ hi
    exact enclosed_of_ending (.handlerBody _ _ _) v rfl
      ((ends_runBody_enclosed hi rfl).mpr ⟨d, w₀, taken, enclosed⟩) ending sealed
  | finished =>
    obtain ⟨rfl, rfl, rfl, rfl⟩ := nested_finished.mp drive
    exact ⟨pool, _, enclosed_finished.mpr ⟨rfl, rfl, rfl⟩, .finished⟩

theorem nested_of_enclosed {pool pool' : Pool Returned} {lm li lo lm' : Life Phase}
    (lives : Enclosing pool lm li lo) {v : Value} {w w' : W} {sight : Sight}
    (safe : ∀ sight p, Exec.Ends (fun b => nested host A B c b v) ((w, li), lo) sight p →
      Unaborted ((w, li), lo) sight p)
    (drive : Exec.Ends (fun b => enclosed host B M new c b v) ((w, pool), lm) sight
      ((w', pool'), lm')) :
    ∃ li' lo', Exec.Ends (fun b => nested host A B c b v) ((w, li), lo) sight ((w', li'), lo') ∧
      Enclosing pool' lm' li' lo' := by
  cases lives with
  | fresh =>
    obtain ⟨d, p, o, w₁, taken, loop, sealed, rfl⟩ := (enclosed_entered rfl).mp drive
    obtain ⟨rfl, rfl⟩ := Exec.pure_eq_of.mp (Exec.ends_const.mp taken)
    have start : takeUp host .start .nil w = (.of (.ok (.proceed .nil)), w) := rfl
    -- The outer loop has not seen anything yet, so both loops begin with the first drive.
    have safe := safe_of_unaborted mints (drivable_fresh .start) .start .nil rfl start safe
    obtain ⟨o', l', w₂, levels, settles⟩ := (bothEnding_of_loop mints quiet merges loop).1
      trivial fun o' l' w' h => safe o' l' w' (.drives rfl rfl h)
    exact nested_of_both mints (drivable_fresh _) .start .nil rfl start
      ⟨o', l', w₂, .drives rfl rfl levels, settles⟩ sealed
  | forwarding =>
    obtain ⟨d, p, o, w₁, taken, loop, sealed, rfl⟩ := (enclosed_entered rfl).mp drive
    obtain ⟨rfl, rfl⟩ := Exec.pure_eq_of.mp (Exec.ends_const.mp taken)
    have answer : takeUp host .forwarding v w = (.of (.ok (.proceed v)), w) := rfl
    have safe := safe_of_unaborted mints (drivable_suspended .forwarding) .forwarding v rfl answer
      safe
    exact nested_of_both mints (drivable_suspended _) .forwarding v rfl answer
      ((bothEnding_of_loop mints quiet merges loop).2 _ (.settled trivial) safe) sealed
  | outer hi =>
    obtain ⟨d, ⟨w₀, pool₀⟩, o, w₁, taken, loop, sealed, rfl⟩ := (enclosed_entered rfl).mp drive
    -- A body of the outer table is driven by the outer loop alone, next to the inner one.
    obtain ⟨d₀, run, plain, rfl⟩ := runBody_back hi taken
    have safe := safe_of_unaborted mints (drivable_suspended .forwarding) (.handlerBody _ _ _) v rfl
      run safe
    exact nested_of_both mints (drivable_suspended _) (.handlerBody _ _ _) v rfl run
      ((bothEnding_of_loop mints quiet merges loop).2 _ plain safe) sealed
  | @body i n a token phase hi =>
    obtain ⟨d, p, o, w₁, taken, loop, sealed, rfl⟩ := (enclosed_entered rfl).mp drive
    -- A body of the inner table is itself handled in the one loop.
    obtain ⟨d₀, w₀, entered, enclosed⟩ := (ends_runBody_enclosed hi rfl).mp taken
    have safe := safe_of_unaborted mints (drivable_suspended (.handlerBody n a token)) phase v rfl
      entered safe
    exact nested_of_both mints (drivable_suspended _) phase v rfl entered
      (bothEnding_of_enclosed mints enclosed hi loop
        (bothEnding_of_loop mints quiet merges loop).1 safe) sealed
  | finished =>
    obtain ⟨rfl, rfl, h⟩ := enclosed_finished.mp drive
    obtain ⟨rfl, rfl⟩ := Prod.mk.inj h
    exact ⟨_, _, nested_finished.mpr ⟨rfl, rfl, rfl, rfl⟩, .finished⟩

end Drive

/-! ## The whole run -/

theorem shows_enclosed_iff {host : Host W} (mints : host.Mints) (quiet : ∀ n, host.note n = pure ())
    {A B : Table} (hA : A.Regular) (hB : B.Regular) (new : NewEntries)
    (kept : ∀ v f, B.claim v = .entry f → new.origin? f = none) (c : Source W)
    {driver : List Value} {w : W}
    (unaborted : Source.Throughout (nested host A B c) Unaborted driver
      ((w, .fresh .start), .fresh .start)) (seen : List Sight) (left : W) :
    Source.Shows (nested host A B c) (fun p => p.1.1) driver ((w, .fresh .start), .fresh .start)
        seen left ↔
      Source.Shows (enclosed host B (Table.merge [B, new.table A]) new c) (fun p => p.1.1) driver
        ((w, {}), .fresh .start) seen left := by
  have merges := merges_table hA hB kept
  refine Source.shows_iff_of_match growing_nested growing_enclosed Unaborted
    (fun p q => p.1.1 = q.1.1 ∧ Enclosing q.1.2 q.2 p.1.2 p.2) (fun h => h.1) ?_ ?_ ?_ unaborted
  · rintro ⟨⟨w, li⟩, lo⟩ ⟨⟨_, pool⟩, lm⟩ v sight ⟨⟨w', li'⟩, lo'⟩ ⟨rfl, lives⟩ unaborted drive
    obtain ⟨pool', lm', drive', lives'⟩ :=
      enclosed_of_nested mints quiet merges lives unaborted drive
    exact ⟨((w', pool'), lm'), drive', rfl, lives'⟩
  · rintro ⟨⟨w, li⟩, lo⟩ ⟨⟨_, pool⟩, lm⟩ v sight ⟨⟨w', pool'⟩, lm'⟩ ⟨rfl, lives⟩ safe drive
    obtain ⟨li', lo', drive', lives'⟩ :=
      nested_of_enclosed mints quiet merges lives safe drive
    exact ⟨((w', li'), lo'), drive', rfl, lives'⟩
  · exact ⟨rfl, .fresh⟩

end OneShot.Dispatch
