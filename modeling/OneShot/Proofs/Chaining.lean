import OneShot.Proofs.Loop

/-!
# One computation after the other

A chain runs a computation to its end, makes another one from its result and runs that. To handle a
chain is to chain the handled computations, as long as no handler aborts an action of the first one:
an abort ends the one loop over both, but only the first of two.
-/

namespace OneShot

/-- Where a chain is: in its first computation, or in the one made from the result. -/
inductive Chain (K : Type) where
  | first
  | rest (k : K)

namespace Chain

variable {W K : Type}

/-- A chain does what the computation does that it is in. -/
def follow (s : Chain K) : Step → Move (Chain K)
  | .suspended a => .suspend a s
  | .completed r => .complete r

def begin (next : Value → Exec W K) (rest : K → Source W) (x : Value) :
    Exec W (Move (Chain K)) := do
  let k ← next x
  return follow (.rest k) (← rest k .nil)

/-- One drive of a chain. `next` makes the rest from a value, and `rest` drives it. -/
def advance (c : Source W) (next : Value → Exec W K) (rest : K → Source W) :
    Chain K → Value → Exec W (Move (Chain K))
  | .first, v => do
    match ← c v with
    | .suspended a => return .suspend a .first
    | .completed x => begin next rest x
  | .rest k, v => do return follow (.rest k) (← rest k v)

section Ends

variable {c : Nat → Source W} {next : Value → Exec W K} {rest : Nat → K → Source W}
  (steady : ∀ v, Exec.Growing (c · v)) (steady' : ∀ k v, Exec.Growing (rest · k v))

/-- How a chain goes on from a result of its first computation. -/
def Begins (next : Value → Exec W K) (rest : Nat → K → Source W) (x : Value) (w : W)
    (o : Except Error (Move (Chain K))) (w' : W) : Prop :=
  (∃ e, next x w = (.raised e, w') ∧ o = .error e) ∨
    ∃ k w₁ sight, next x w = (.ok k, w₁) ∧ Exec.Ends (rest · k .nil) w₁ sight w' ∧
      o = sight.map (follow (.rest k))

theorem ends_rest {k : K} {v : Value} {w w' : W} {o : Except Error (Move (Chain K))} :
    Exec.Ends (fun b => advance (c b) next (rest b) (.rest k) v) w o w' ↔
      ∃ sight, o = sight.map (follow (.rest k)) ∧ Exec.Ends (rest · k v) w sight w' :=
  Exec.ends_map _

include steady'

theorem growing_begin (x : Value) : Exec.Growing fun b => begin next (rest b) x :=
  (Exec.growing_const _).bind fun k => (steady' k .nil).bind fun _ => Exec.growing_const _

theorem ends_begin {x : Value} {w w' : W} {o : Except Error (Move (Chain K))} :
    Exec.Ends (fun b => begin next (rest b) x) w o w' ↔ Begins next rest x w o w' := by
  have growing (k : K) : Exec.Growing fun b => do return follow (.rest k) (← rest b k .nil) :=
    (steady' k .nil).bind fun _ => Exec.growing_const _
  unfold begin
  rw [Exec.ends_bind (Exec.growing_const (next x)) growing]
  simp only [Exec.ends_const]
  constructor
  · rintro (⟨e, rfl, h⟩ | ⟨k, w₁, h, ends⟩)
    · exact Or.inl ⟨e, h, rfl⟩
    · obtain ⟨sight, ho, ends⟩ := (Exec.ends_map (follow (.rest k))).mp ends
      exact Or.inr ⟨k, w₁, sight, h, ends, ho⟩
  · rintro (⟨e, h, rfl⟩ | ⟨k, w₁, sight, h, ends, rfl⟩)
    · exact Or.inl ⟨e, rfl, h⟩
    · exact Or.inr ⟨k, w₁, h, (Exec.ends_map _).mpr ⟨sight, rfl, ends⟩⟩

include steady

theorem growing_advance (s : Chain K) (v : Value) :
    Exec.Growing fun b => advance (c b) next (rest b) s v := by
  cases s with
  | rest k => exact (steady' k v).bind fun _ => Exec.growing_const _
  | first =>
    refine (steady v).bind fun step => ?_
    cases step with
    | suspended a => exact Exec.growing_const _
    | completed x => exact growing_begin steady' x

theorem ends_first {v : Value} {w w' : W} {o : Except Error (Move (Chain K))} :
    Exec.Ends (fun b => advance (c b) next (rest b) .first v) w o w' ↔
      ∃ sight w₁, Exec.Ends (c · v) w sight w₁ ∧ match sight with
        | .error e => o = .error e ∧ w' = w₁
        | .ok (.suspended a) => o = .ok (.suspend a .first) ∧ w' = w₁
        | .ok (.completed x) => Begins next rest x w₁ o w' := by
  have growing (step : Step) : Exec.Growing fun b => (match step with
      | .suspended a => pure (.suspend a .first)
      | .completed x => begin next (rest b) x : Exec W (Move (Chain K))) := by
    cases step with
    | suspended a => exact Exec.growing_const _
    | completed x => exact growing_begin steady' x
  unfold advance
  rw [Exec.ends_bind (steady v) growing]
  constructor
  · rintro (⟨e, rfl, h⟩ | ⟨step, w₁, h, ends⟩)
    · exact ⟨.error e, w', h, rfl, rfl⟩
    · refine ⟨.ok step, w₁, h, ?_⟩
      cases step with
      | suspended a => exact Exec.pure_eq_of.mp (Exec.ends_const.mp ends)
      | completed x => exact (ends_begin steady').mp ends
  · rintro ⟨e | a | x, w₁, h, ends⟩
    · obtain ⟨rfl, rfl⟩ := ends
      exact Or.inl ⟨e, rfl, h⟩
    · exact Or.inr ⟨_, w₁, h, Exec.ends_const.mpr (Exec.pure_eq_of.mpr ends)⟩
    · exact Or.inr ⟨_, w₁, h, (ends_begin steady').mpr ends⟩

end Ends

/-- A chain as a computation, with its life beside the world. -/
def source (host : Host W) (c : Source W) (next : Value → Exec W K) (rest : K → Source W) :
    Source (W × Life (Chain K)) :=
  Source.ofBody host.mint (advance c next rest)

end Chain

namespace Dispatch

open Chain (follow Begins)

variable {W K : Type}

/-- What a chain and the loop that it is handled in wait for. -/
inductive Fate (K : Type) where
  | fresh
  | waits (s : Chain K) (phase : Phase)
  | ended

/-- What is waited for when a loop over a part of the chain has ended. -/
def Fate.of (s : Chain K) : Except Error (Move Phase) → Fate K
  | .ok (.suspend _ phase) => .waits s phase
  | _ => .ended

/-- The lives of a chain and of the loop over it. -/
inductive OneLives : Fate K → Life (Chain K) → Life Phase → Prop where
  | fresh : OneLives .fresh (.fresh .first) (.fresh .start)
  | waits {s phase} : OneLives (.waits s phase) (.suspended s) (.suspended phase)
  | ended {l} : OneLives .ended l .finished

/-- The lives of the loop over a part of the chain and of the chain. -/
inductive PartLives : Fate K → Life Phase → Life (Chain K) → Prop where
  | fresh : PartLives .fresh (.fresh .start) (.fresh .first)
  | waits {s phase} : PartLives (.waits s phase) (.suspended phase) (.suspended s)
  | ended {l} : PartLives .ended l .finished

section

variable {host : Host W} {table : Table} {c : Source W} {next : Value → Exec W K}
  {rest : K → Source W}

theorem chain_entered {l l' : Life (Chain K)} {v u : Value} {s : Chain K}
    (entry : l.enters? v = some (s, u)) {w w' : W} {sight : Sight} :
    Chain.source host c next rest v (w, l) = (.of sight, (w', l')) ↔
      ∃ o w₁, Chain.advance c next rest s u w = (.of o, w₁) ∧
        Life.seal host.mint o w₁ = (.of sight, w') ∧ l' = Life.left o := by
  unfold Chain.source
  rw [Source.ofBody_eq, Drives.entered_iff entry]

theorem chain_rest {k : K} {v : Value} {w w' : W} {l' : Life (Chain K)} {sight : Sight} :
    Chain.source host c next rest v (w, .suspended (.rest k)) = (.of sight, (w', l')) ↔
      ∃ sight₁ w₁, rest k v w = (.of sight₁, w₁) ∧
        Life.seal host.mint (sight₁.map (follow (.rest k))) w₁ = (.of sight, w') ∧
        l' = Life.left (sight₁.map (follow (.rest k))) := by
  have drives {o : Except Error (Move (Chain K))} {w₁ : W} :
      Chain.advance c next rest (.rest k) v w = (.of o, w₁) ↔
        ∃ sight₁, o = sight₁.map (follow (.rest k)) ∧ rest k v w = (.of sight₁, w₁) := by
    have h := @Chain.ends_rest W K (fun _ => c) next (fun _ => rest) k v w w₁ o
    simpa only [Exec.ends_const] using h
  rw [chain_entered rfl]
  constructor
  · rintro ⟨o, w₁, h, sealed, left⟩
    obtain ⟨sight₁, rfl, drive⟩ := drives.mp h
    exact ⟨sight₁, w₁, drive, sealed, left⟩
  · rintro ⟨sight₁, w₁, drive, sealed, left⟩
    exact ⟨_, w₁, drives.mpr ⟨sight₁, rfl, drive⟩, sealed, left⟩

/-- What a chain makes of a result of its first computation, when it is sealed. -/
def BeginsSealed (host : Host W) (next : Value → Exec W K) (rest : K → Source W) (x : Value) (w : W)
    (sight : Sight) (w' : W) (l' : Life (Chain K)) : Prop :=
  (∃ e w₁, next x w = (.raised e, w₁) ∧
    Life.seal host.mint (.error e : Except Error (Move (Chain K))) w₁ = (.of sight, w') ∧
    l' = .finished) ∨
  ∃ k w₁ sight₂ w₂, next x w = (.ok k, w₁) ∧ rest k .nil w₁ = (.of sight₂, w₂) ∧
    Life.seal host.mint (sight₂.map (follow (.rest k))) w₂ = (.of sight, w') ∧
    l' = Life.left (sight₂.map (follow (.rest k)))

theorem chain_first {l l' : Life (Chain K)} {v u : Value} (entry : l.enters? v = some (.first, u))
    {w w' : W} {sight : Sight} :
    Chain.source host c next rest v (w, l) = (.of sight, (w', l')) ↔
      ∃ sight₁ w₁, c u w = (.of sight₁, w₁) ∧ match sight₁ with
        | .error e => Life.seal host.mint (.error e : Except Error (Move (Chain K))) w₁ =
          (.of sight, w') ∧ l' = .finished
        | .ok (.suspended a) => sight = .ok (.suspended a) ∧ w' = w₁ ∧ l' = .suspended .first
        | .ok (.completed x) => BeginsSealed host next rest x w₁ sight w' l' := by
  -- One drive of the chain is one drive of its first part, and what the chain makes of the end.
  have drives {o : Except Error (Move (Chain K))} {w₁ : W} :=
    @Chain.ends_first W K (fun _ => c) next (fun _ => rest) (fun _ => Exec.growing_const _)
      (fun _ _ => Exec.growing_const _) u w w₁ o
  simp only [Exec.ends_const] at drives
  rw [chain_entered entry]
  constructor
  · rintro ⟨o, w₁, h, sealed, left⟩
    obtain ⟨sight₁, w₂, drive, h⟩ := drives.mp h
    refine ⟨sight₁, w₂, drive, ?_⟩
    rcases sight₁ with e | a | x
    · obtain ⟨rfl, rfl⟩ := h
      exact ⟨sealed, left⟩
    · obtain ⟨rfl, rfl⟩ := h
      obtain ⟨rfl, rfl⟩ := Exec.pure_eq_of.mp sealed
      exact ⟨rfl, rfl, left⟩
    · rcases h with ⟨e, hnext, rfl⟩ | ⟨k, w₃, sight₂, hnext, hrest, rfl⟩
      · exact Or.inl ⟨e, w₁, hnext, sealed, left⟩
      · exact Or.inr ⟨k, w₃, sight₂, w₁, hnext, Exec.ends_const.mp hrest, sealed, left⟩
  · rintro ⟨sight₁, w₁, drive, h⟩
    rcases sight₁ with e | a | x
    · exact ⟨_, w₁, drives.mpr ⟨_, w₁, drive, rfl, rfl⟩, h.1, h.2⟩
    · obtain ⟨rfl, rfl, rfl⟩ := h
      exact ⟨_, _, drives.mpr ⟨_, _, drive, rfl, rfl⟩, rfl, rfl⟩
    · rcases h with ⟨e, w₂, hnext, sealed, left⟩ | ⟨k, w₂, sight₂, w₃, hnext, hrest, sealed, left⟩
      · exact ⟨_, w₂, drives.mpr ⟨_, w₁, drive, Or.inl ⟨e, hnext, rfl⟩⟩, sealed, left⟩
      · exact ⟨_, w₃, drives.mpr ⟨_, w₁, drive, Or.inr ⟨k, w₂, sight₂, hnext,
          Exec.ends_const.mpr hrest, rfl⟩⟩, sealed, left⟩

abbrev ChainRuns (host : Host W) (table : Table) (c : Source W) (next : Value → Exec W K)
    (rest : K → Source W) :=
  Runs (fun _ => (host.beside : Host (W × Life (Chain K)))) table
    fun _ => Chain.source host c next rest

variable (mints : host.Mints)

include mints

theorem rest_of_chain {k : K} {d : Except Error Decision} {p p' : W × Life (Chain K)}
    {o : Except Error (Move Phase)} (runs : ChainRuns host table c next rest d p o p')
    (hp : p.2 = .suspended (.rest k)) {sight : Sight} {w' : W}
    (sealed : Life.seal host.mint o p'.1 = (.of sight, w')) :
    ∃ o₁ w₁, Runs (fun _ => host) table (fun _ => rest k) d p.1 o₁ w₁ ∧
      Life.seal host.mint o₁ w₁ = (.of sight, w') ∧
      OneLives (Fate.of (.rest k) o₁) p'.2 (Life.left o) := by
  -- The chain is in its rest from the first round on, so each round of the one loop is a round of
  -- the other one.
  induction runs with
  | failed => exact ⟨_, _, .failed, sealed, .ended⟩
  | @stop move p =>
    refine ⟨_, _, .stop, sealed, ?_⟩
    cases move with
    | complete r => exact .ended
    | suspend a phase =>
      rw [hp]
      exact .waits
  | @broken v p e p' drive =>
    obtain ⟨w, l⟩ := p
    obtain ⟨w₁, l₁⟩ := p'
    obtain rfl : l = _ := hp
    obtain ⟨sight₁, w₂, hdrive, hseal, -⟩ := chain_rest.mp (Exec.ends_const.mp drive)
    rcases sight₁ with e₁ | a | r
    · exact ⟨_, _, .broken (Exec.ends_const.mpr hdrive),
        (Life.seal_again mints hseal _ _).mpr sealed, .ended⟩
    · cases congrArg Prod.fst hseal
    · cases congrArg Prod.fst hseal
  | @round v p step p₁ d p₂ o p' drive reacts runs ih =>
    obtain ⟨w, l⟩ := p
    obtain ⟨w₁, l₁⟩ := p₁
    obtain rfl : l = _ := hp
    obtain ⟨sight₁, w₂, hdrive, hseal, hl⟩ := chain_rest.mp (Exec.ends_const.mp drive)
    rw [Exec.ends_const, react_beside] at reacts
    obtain ⟨w₃, l₃⟩ := p₂
    obtain ⟨answer, hl₃⟩ := Exec.beside_eq.mp reacts
    rcases sight₁ with e₁ | a | r
    · obtain ⟨e', he'⟩ := Life.error_of_seal mints hseal
      cases he'
    · obtain ⟨⟨⟩, rfl⟩ := Exec.pure_eq_of.mp hseal
      obtain ⟨o₁, w₄, runs₁, sealed₁, lives⟩ := ih (hl₃.trans hl) sealed
      exact ⟨o₁, w₄, .round (Exec.ends_const.mpr hdrive) (Exec.ends_const.mpr answer) runs₁,
        sealed₁, lives⟩
    · obtain ⟨⟨⟩, rfl⟩ := Exec.pure_eq_of.mp hseal
      obtain ⟨rfl, rfl⟩ := Exec.pure_eq_of.mp answer
      cases runs
      exact ⟨_, _, .round (Exec.ends_const.mpr hdrive) (Exec.ends_const.mpr answer) .stop, sealed,
        .ended⟩

/-- The loop over a chain ends with what is seen, and with the lives that go with what is waited for
then. -/
def ChainEnds (host : Host W) (table : Table) (c : Source W) (next : Value → Exec W K)
    (rest : K → Source W) (d : Except Error Decision) (p : W × Life (Chain K)) (sight : Sight)
    (w' : W) (fate : Fate K) : Prop :=
  ∃ o p', ChainRuns host table c next rest d p o p' ∧
    Life.seal host.mint o p'.1 = (.of sight, w') ∧ OneLives fate p'.2 (Life.left o)

omit mints in
theorem ChainEnds.round {v : Value} {step : Step} {d : Except Error Decision} {w w₁ w₂ : W}
    {l l₁ : Life (Chain K)} {sight : Sight} {w' : W} {fate : Fate K}
    (drive : Chain.source host c next rest v (w, l) = (.of (.ok step), (w₁, l₁)))
    (reacts : react host table step w₁ = (.of d, w₂))
    (ends : ChainEnds host table c next rest d (w₂, l₁) sight w' fate) :
    ChainEnds host table c next rest (.ok (.proceed v)) (w, l) sight w' fate := by
  obtain ⟨o, p', runs, sealed, lives⟩ := ends
  have reacts' : Exec.Ends (fun _ => react (host.beside : Host (W × Life (Chain K))) table step)
      (w₁, l₁) d (w₂, l₁) := by
    rw [Exec.ends_const, react_beside]
    exact Exec.beside_eq.mpr ⟨reacts, rfl⟩
  exact ⟨o, p', .round (Exec.ends_const.mpr drive) reacts' runs, sealed, lives⟩

omit mints in
theorem ChainEnds.complete {r : Value} {p : W × Life (Chain K)} {w : W} (hw : p.1 = w) :
    ChainEnds host table c next rest (.ok (.stop (.complete r))) p (.ok (.completed r)) w .ended :=
  ⟨_, _, .stop, by rw [hw]; rfl, .ended⟩

theorem ChainEnds.broken {v : Value} {e e' : Error} {w w₁ w' : W} {l l' : Life (Chain K)}
    (sealed : Life.seal host.mint (.error e : Except Error (Move (Chain K))) w₁ = (.raised e', w'))
    (drive : Chain.source host c next rest v (w, l) = (.of (.error e'), (w', l'))) :
    ChainEnds host table c next rest (.ok (.proceed v)) (w, l) (.error e') w' .ended :=
  ⟨_, _, .broken (Exec.ends_const.mpr drive),
    (Life.seal_again (T := Phase) mints sealed (.error e') w').mp sealed, .ended⟩

theorem chain_of_rest {k : K} {d : Except Error Decision} {w w₁ w' : W}
    {o₁ : Except Error (Move Phase)} {sight : Sight}
    (runs : Runs (fun _ => host) table (fun _ => rest k) d w o₁ w₁)
    (sealed : Life.seal host.mint o₁ w₁ = (.of sight, w')) :
    ChainEnds host table c next rest d (w, .suspended (.rest k)) sight w' (.of (.rest k) o₁) := by
  induction runs with
  | failed => exact ⟨_, _, .failed, sealed, .ended⟩
  | @stop move w =>
    refine ⟨_, _, .stop, sealed, ?_⟩
    cases move with
    | complete r => exact .ended
    | suspend a phase => exact .waits
  | @broken v w e w₁ drive =>
    obtain ⟨e', rfl⟩ := Life.error_of_seal mints sealed
    refine .broken mints sealed (chain_rest.mpr ⟨_, _, Exec.ends_const.mp drive, sealed, rfl⟩)
  | @round v w step w₁ d w₂ o₁ w₃ drive reacts runs ih =>
    have hdrive := Exec.ends_const.mp drive
    have answer := Exec.ends_const.mp reacts
    cases step with
    | suspended a =>
      exact .round (chain_rest.mpr ⟨_, _, hdrive, rfl, rfl⟩) answer (ih sealed)
    | completed r =>
      obtain ⟨rfl, rfl⟩ := Exec.pure_eq_of.mp answer
      cases runs
      obtain ⟨rfl, rfl⟩ := Exec.pure_eq_of.mp sealed
      exact .round (chain_rest.mpr ⟨_, _, hdrive, rfl, rfl⟩) rfl (.complete rfl)

/-- Once the first computation has completed, the rest is made, and the loop over it ends. -/
def RestEnds (host : Host W) (table : Table) (next : Value → Exec W K) (rest : K → Source W)
    (x : Value) (w : W) (sight : Sight) (w' : W) (fate : Fate K) : Prop :=
  (∃ e w₁, next x w = (.raised e, w₁) ∧
    Life.seal host.mint (.error e : Except Error (Move (Chain K))) w₁ = (.of sight, w') ∧
    fate = .ended) ∨
  ∃ k w₁ o w₂, next x w = (.ok k, w₁) ∧
    Runs (fun _ => host) table (fun _ => rest k) (.ok (.proceed .nil)) w₁ o w₂ ∧
    Life.seal host.mint o w₂ = (.of sight, w') ∧ fate = .of (.rest k) o

def FirstSealed (host : Host W) (table : Table) (next : Value → Exec W K) (rest : K → Source W)
    (w : W) (sight : Sight) (w' : W) (fate : Fate K) : Except Error (Move Phase) → Prop
  | .error e => Life.seal host.mint (.error e : Except Error (Move Phase)) w = (.of sight, w') ∧
    fate = .ended
  | .ok (.suspend a phase) => sight = .ok (.suspended a) ∧ w' = w ∧ fate = .waits .first phase
  | .ok (.complete x) => RestEnds host table next rest x w sight w' fate

/-- The loop over the first computation ends, and the loop over the rest if that is next. -/
def FirstEnds (host : Host W) (table : Table) (c : Source W) (next : Value → Exec W K)
    (rest : K → Source W) (d : Except Error Decision) (w : W) (sight : Sight) (w' : W)
    (fate : Fate K) : Prop :=
  ∃ o w₁, Runs (fun _ => host) table (fun _ => c) d w o w₁ ∧
    FirstSealed host table next rest w₁ sight w' fate o

theorem restEnds_of_broken {x : Value} {w w₁ w' : W} {l : Life (Chain K)} {e : Error}
    {sight : Sight} (begins : BeginsSealed host next rest x w (.error e) w₁ l)
    (sealed : Life.seal host.mint (.error e : Except Error (Move Phase)) w₁ = (.of sight, w')) :
    RestEnds host table next rest x w sight w' .ended := by
  rcases begins with ⟨e₁, w₂, hnext, hseal, -⟩ | ⟨k, w₂, e₁ | a | r, w₃, hnext, hrest, hseal, -⟩
  · exact Or.inl ⟨e₁, w₂, hnext, (Life.seal_again mints hseal _ _).mpr sealed, rfl⟩
  · exact Or.inr ⟨k, w₂, .error e₁, w₃, hnext, .broken (Exec.ends_const.mpr hrest),
      (Life.seal_again mints hseal _ _).mpr sealed, rfl⟩
  · cases congrArg Prod.fst hseal
  · cases congrArg Prod.fst hseal

theorem restEnds_of_round {x : Value} {w w₁ w₂ w' : W} {l l₁ : Life (Chain K)} {step : Step}
    {d : Except Error Decision} {o : Except Error (Move Phase)} {p' : W × Life (Chain K)}
    {sight : Sight} (begins : BeginsSealed host next rest x w (.ok step) w₁ l)
    (answer : react host table step w₁ = (.of d, w₂)) (hl : l₁ = l)
    (runs : ChainRuns host table c next rest d (w₂, l₁) o p')
    (sealed : Life.seal host.mint o p'.1 = (.of sight, w')) :
    ∃ fate, RestEnds host table next rest x w sight w' fate ∧ OneLives fate p'.2 (Life.left o) := by
  rcases begins with ⟨e₁, w₃, hnext, hseal, -⟩ | ⟨k, w₃, e₁ | a | r, w₄, hnext, hrest, hseal, hl₁⟩
  · obtain ⟨e', he'⟩ := Life.error_of_seal mints hseal
    cases he'
  · obtain ⟨e', he'⟩ := Life.error_of_seal mints hseal
    cases he'
  · obtain ⟨⟨⟩, rfl⟩ := Exec.pure_eq_of.mp hseal
    obtain ⟨o₁, w₅, runs₁, sealed₁, lives⟩ := rest_of_chain mints runs (hl.trans hl₁) sealed
    exact ⟨_, Or.inr ⟨k, w₃, o₁, w₅, hnext,
      .round (Exec.ends_const.mpr hrest) (Exec.ends_const.mpr answer) runs₁, sealed₁, rfl⟩, lives⟩
  · obtain ⟨⟨⟩, rfl⟩ := Exec.pure_eq_of.mp hseal
    obtain ⟨rfl, rfl⟩ := Exec.pure_eq_of.mp answer
    cases runs
    exact ⟨_, Or.inr ⟨k, w₃, .ok (.complete r), _, hnext,
      .round (Exec.ends_const.mpr hrest) (Exec.ends_const.mpr answer) .stop, sealed, rfl⟩, .ended⟩

omit mints in
theorem FirstEnds.round {v : Value} {step : Step} {d : Except Error Decision} {w w₁ w₂ w' : W}
    {sight : Sight} {fate : Fate K} (drive : c v w = (.ok step, w₁))
    (reacts : react host table step w₁ = (.of d, w₂))
    (ends : FirstEnds host table c next rest d w₂ sight w' fate) :
    FirstEnds host table c next rest (.ok (.proceed v)) w sight w' fate := by
  obtain ⟨o, w₃, runs, h⟩ := ends
  exact ⟨o, w₃, .round (Exec.ends_const.mpr drive) (Exec.ends_const.mpr reacts) runs, h⟩

omit mints in
theorem FirstEnds.complete {v x : Value} {w w₁ w' : W} {sight : Sight} {fate : Fate K}
    (drive : c v w = (.ok (.completed x), w₁))
    (ends : RestEnds host table next rest x w₁ sight w' fate) :
    FirstEnds host table c next rest (.ok (.proceed v)) w sight w' fate :=
  .round drive rfl ⟨.ok (.complete x), w₁, .stop, ends⟩

/-- The chain is in its first computation, and the loop over it goes on with a decision. -/
def InFirst (l : Life (Chain K)) (d : Except Error Decision) : Prop :=
  l = .suspended .first ∨ l = .fresh .first ∧ d = .ok (.proceed .nil)

omit mints in
theorem InFirst.entry {l : Life (Chain K)} {v : Value} (h : InFirst l (.ok (.proceed v))) :
    l.enters? v = some (.first, v) := by
  rcases h with rfl | ⟨rfl, h⟩
  · rfl
  · cases h
    rfl

/-- No handler has aborted an action of the first computation. -/
def Unbroken (sight : Sight) (l : Life (Chain K)) : Prop :=
  ∀ r, sight = .ok (.completed r) → l ≠ .suspended .first

theorem first_of_chain {d : Except Error Decision} {p p' : W × Life (Chain K)}
    {o : Except Error (Move Phase)} (runs : ChainRuns host table c next rest d p o p')
    (inFirst : InFirst p.2 d) {sight : Sight} {w' : W}
    (sealed : Life.seal host.mint o p'.1 = (.of sight, w')) (unbroken : Unbroken sight p'.2) :
    ∃ fate, FirstEnds host table c next rest d p.1 sight w' fate ∧
      OneLives fate p'.2 (Life.left o) := by
  induction runs with
  | failed => exact ⟨.ended, ⟨_, _, .failed, sealed, rfl⟩, .ended⟩
  | @stop move p =>
    have hp : p.2 = .suspended .first := by
      rcases inFirst with h | ⟨-, h⟩
      · exact h
      · cases h
    cases move with
    | complete r =>
      -- The loop completes and the source does not: that is an abort.
      obtain ⟨rfl, -⟩ := Exec.pure_eq_of.mp sealed
      exact absurd hp (unbroken r rfl)
    | suspend a phase =>
      obtain ⟨rfl, rfl⟩ := Exec.pure_eq_of.mp sealed
      refine ⟨_, ⟨_, _, .stop, rfl, rfl, rfl⟩, ?_⟩
      rw [hp]
      exact .waits
  | @broken v p e p' drive =>
    obtain ⟨w, l⟩ := p
    obtain ⟨w₁, l₁⟩ := p'
    obtain ⟨sight₁, w₂, hdrive, h⟩ := (chain_first inFirst.entry).mp (Exec.ends_const.mp drive)
    rcases sight₁ with e₁ | a | x
    · have sealed := (Life.seal_again mints h.1 _ _).mpr sealed
      exact ⟨.ended, ⟨_, _, .broken (Exec.ends_const.mpr hdrive), sealed, rfl⟩, .ended⟩
    · cases h.1
    · exact ⟨.ended, .complete hdrive (restEnds_of_broken mints h sealed), .ended⟩
  | @round v p step p₁ d p₂ o p' drive reacts runs ih =>
    obtain ⟨w, l⟩ := p
    obtain ⟨w₁, l₁⟩ := p₁
    obtain ⟨w₂, l₂⟩ := p₂
    obtain ⟨sight₁, w₃, hdrive, h⟩ := (chain_first inFirst.entry).mp (Exec.ends_const.mp drive)
    rw [Exec.ends_const, react_beside] at reacts
    obtain ⟨answer, hl⟩ := Exec.beside_eq.mp reacts
    rcases sight₁ with e₁ | a | x
    · obtain ⟨e', he'⟩ := Life.error_of_seal mints h.1
      cases he'
    · obtain ⟨⟨⟩, rfl, hl₁⟩ := h
      obtain ⟨fate, ends, lives⟩ := ih (Or.inl (hl.trans hl₁)) sealed unbroken
      exact ⟨fate, .round hdrive answer ends, lives⟩
    · -- In the same drive the first computation completes and the rest begins.
      obtain ⟨fate, ends, lives⟩ := restEnds_of_round mints h answer hl runs sealed
      exact ⟨fate, .complete hdrive ends, lives⟩

theorem chain_of_restEnds {l : Life (Chain K)} {v x : Value}
    (entry : l.enters? v = some (.first, v)) {w w₁ w' : W} {sight : Sight} {fate : Fate K}
    (drive : c v w = (.ok (.completed x), w₁))
    (ends : RestEnds host table next rest x w₁ sight w' fate) :
    ChainEnds host table c next rest (.ok (.proceed v)) (w, l) sight w' fate := by
  have begins {sight' : Sight} {w₂ : W} {l' : Life (Chain K)}
      (h : BeginsSealed host next rest x w₁ sight' w₂ l') :
      Chain.source host c next rest v (w, l) = (.of sight', (w₂, l')) :=
    (chain_first entry).mpr ⟨.ok (.completed x), w₁, drive, h⟩
  rcases ends with ⟨e, w₂, hnext, sealed, rfl⟩ | ⟨k, w₂, o, w₃, hnext, runs, sealed, rfl⟩
  · obtain ⟨e', rfl⟩ := Life.error_of_seal mints sealed
    exact .broken mints sealed (begins (Or.inl ⟨e, w₂, hnext, sealed, rfl⟩))
  · cases runs with
    | @broken _ _ e _ hrest =>
      obtain ⟨e', rfl⟩ := Life.error_of_seal mints sealed
      exact .broken mints sealed (begins (Or.inr ⟨k, w₂, .error e, w₃, hnext,
        Exec.ends_const.mp hrest, sealed, rfl⟩))
    | @round _ _ step w₄ d w₅ _ _ hrest reacts runs =>
      have hrest := Exec.ends_const.mp hrest
      have answer := Exec.ends_const.mp reacts
      cases step with
      | suspended a =>
        exact .round (begins (Or.inr ⟨k, w₂, .ok (.suspended a), w₄, hnext, hrest, rfl, rfl⟩))
          answer (chain_of_rest mints runs sealed)
      | completed r =>
        obtain ⟨rfl, rfl⟩ := Exec.pure_eq_of.mp answer
        cases runs
        obtain ⟨rfl, rfl⟩ := Exec.pure_eq_of.mp sealed
        exact .round (begins (Or.inr ⟨k, w₂, .ok (.completed r), _, hnext, hrest, rfl, rfl⟩)) rfl
          (.complete rfl)

/-- What the loops over the parts do, the loop over the chain does. -/
theorem chain_of_first {d : Except Error Decision} {w w₁ w' : W} {l : Life (Chain K)}
    {o : Except Error (Move Phase)} {sight : Sight} {fate : Fate K}
    (runs : Runs (fun _ => host) table (fun _ => c) d w o w₁) (inFirst : InFirst l d)
    (ends : FirstSealed host table next rest w₁ sight w' fate o)
    (safe : ∀ o p', ChainRuns host table c next rest d (w, l) o p' →
      ∀ r, o = .ok (.complete r) → p'.2 ≠ .suspended .first) :
    ChainEnds host table c next rest d (w, l) sight w' fate := by
  induction runs generalizing l with
  | failed =>
    obtain ⟨sealed, rfl⟩ := ends
    exact ⟨_, _, .failed, sealed, .ended⟩
  | @stop move w =>
    have hl : l = .suspended .first := by
      rcases inFirst with h | ⟨-, h⟩
      · exact h
      · cases h
    cases move with
    | complete r => exact absurd hl (safe _ _ .stop r rfl)
    | suspend a phase =>
      obtain ⟨rfl, rfl, rfl⟩ := ends
      subst hl
      exact ⟨_, _, .stop, rfl, .waits⟩
  | @broken v w e w₁ drive =>
    obtain ⟨sealed, rfl⟩ := ends
    obtain ⟨e', rfl⟩ := Life.error_of_seal mints sealed
    exact .broken mints sealed ((chain_first inFirst.entry).mpr
      ⟨.error e, w₁, Exec.ends_const.mp drive, sealed, rfl⟩)
  | @round v w step w₁ d w₂ o w₃ drive reacts runs ih =>
    have hdrive := Exec.ends_const.mp drive
    have answer := Exec.ends_const.mp reacts
    cases step with
    | suspended a =>
      -- The chain is still in its first computation, and whatever it does from there is safe.
      have hchain : Chain.source host c next rest v (w, l) =
          (.of (.ok (.suspended a)), (w₁, .suspended .first)) :=
        (chain_first inFirst.entry).mpr ⟨.ok (.suspended a), w₁, hdrive, rfl, rfl, rfl⟩
      refine .round hchain answer (ih (Or.inl rfl) ends fun o p' runs => ?_)
      refine safe o p' (.round (Exec.ends_const.mpr hchain) ?_ runs)
      rw [Exec.ends_const, react_beside]
      exact Exec.beside_eq.mpr ⟨answer, rfl⟩
    | completed x =>
      obtain ⟨rfl, rfl⟩ := Exec.pure_eq_of.mp answer
      cases runs
      exact chain_of_restEnds mints inFirst.entry hdrive ends

end

end Dispatch

end OneShot
