import OneShot.Proofs.Scopes
import OneShot.Proofs.Snapshots

/-!
# Local environments shadow the ones around them

A computation in local environments and a reader handler behaves as with one reader handler whose
environment is updated with all overrides. Each loop of the stack does what the relation of its
scope says, so two stacks that have the same behaviour show the same to every driver.
-/

namespace OneShot.World.Shadowing

open Exec
open Dispatch (Phase Runs react takeUp)

variable {L : Language} {U : Type}

/-- A world and what the computation knows of, which is none of it, and the lives of the loops. -/
abbrev Shadowed (L : Language) (U : Type) := (World L × U) × (Nat → Life Shell)

/-- The computations of a stack over `c`. -/
def shadowed (program : Program L) (steps depth : Nat) (c : Source U) (bound place : Nat) :
    Source (Shadowed L U) :=
  level (fun _ source => source) (fun _ => (kernel program steps (depth + 2)).beside.beside)
    Cell.nth (fun v => (within Cell.second (c v)).beside) bound place

/-! ## Between two drives -/

/-- The scopes wait for a drive, and one with `v` will be one with `u` for the computation. All
tokens and computations that they wait for are older than these. -/
inductive Waits (p : Shadowed L U) : List Scope → Nat → Nat → Value → Value → Prop where
  | source {t n v} : Waits p [] t n v v
  | fresh {s scopes t n v u} (life : p.2 scopes.length = .fresh (.handling s.table .start))
      (rest : Waits p scopes t n .nil u) : Waits p (s :: scopes) t n v u
  | forwarding {s scopes t n v u}
      (life : p.2 scopes.length = .suspended (.handling s.table .forwarding))
      (rest : Waits p scopes t n v u) : Waits p (s :: scopes) t n v u
  | asking {s scopes t n v u x t₀ n₀}
      (life : p.2 scopes.length = .suspended (.handling s.table (.handlerBody n₀ x t₀)))
      (ht : t₀ < t) (hn : n₀ < n) (asks : Asking t₀ n₀ p.1.1) (rest : Waits p scopes t₀ n₀ v u) :
      Waits p (s :: scopes) t n v u

/-- The outermost loop has ended. -/
def Over (p : Shadowed L U) : List Scope → Prop
  | [] => True
  | _ :: scopes => p.2 scopes.length = .finished

namespace Waits

variable {p p' : Shadowed L U} {scopes : List Scope} {t t' n n' : Nat} {v u : Value}

theorem imp (h : Waits p scopes t n v u)
    (asks : ∀ t₀ < t, ∀ n₀ < n, Asking t₀ n₀ p.1.1 → Asking t₀ n₀ p'.1.1)
    (lives : ∀ k < scopes.length, p'.2 k = p.2 k) (ht : t ≤ t') (hn : n ≤ n') :
    Waits p' scopes t' n' v u := by
  induction h generalizing t' n' with
  | source => exact .source
  | @fresh s scopes t n v u life _ ih =>
    have inner (k : Nat) (hk : k < scopes.length) := lives k (Nat.lt_succ_of_lt hk)
    exact .fresh ((lives _ (Nat.lt_succ_self _)).trans life) (ih asks inner ht hn)
  | @forwarding s scopes t n v u life _ ih =>
    have inner (k : Nat) (hk : k < scopes.length) := lives k (Nat.lt_succ_of_lt hk)
    exact .forwarding ((lives _ (Nat.lt_succ_self _)).trans life) (ih asks inner ht hn)
  | @asking s scopes t n v u x t₀ n₀ life ht₀ hn₀ own _ ih =>
    have inner (k : Nat) (hk : k < scopes.length) := lives k (Nat.lt_succ_of_lt hk)
    have older : ∀ i < t₀, ∀ j < n₀, Asking i j p.1.1 → Asking i j p'.1.1 :=
      fun i hi j hj => asks i (Nat.lt_trans hi ht₀) j (Nat.lt_trans hj hn₀)
    exact .asking ((lives _ (Nat.lt_succ_self _)).trans life) (Nat.lt_of_lt_of_le ht₀ ht)
      (Nat.lt_of_lt_of_le hn₀ hn) (asks t₀ ht₀ n₀ hn₀ own)
      (ih older inner (Nat.le_refl _) (Nat.le_refl _))

theorem newer (h : Waits p scopes t n v u) (newer : Newer t n p.1.1 p'.1.1)
    (lives : ∀ k < scopes.length, p'.2 k = p.2 k) : Waits p' scopes t n v u :=
  h.imp (fun _ ht _ hn asks => asks.newer newer ht hn) lives (Nat.le_refl _) (Nat.le_refl _)

theorem under (h : Waits p scopes t n v u) (life : Life Shell) :
    Waits ((Cell.nth scopes.length).set life p) scopes t n v u :=
  h.newer ⟨fun _ _ => rfl, fun _ _ => rfl⟩ fun _ hk => Function.update_of_ne (Nat.ne_of_lt hk) _ _

end Waits

/-! ## What is seen -/

/-- A sight that comes to this for a loop that answers questions. Such a loop refuses what a
computation can ask wrongly or end with, which no loop of a scope shows. -/
inductive Comes (L : Language) : Turnout → Sight → Prop where
  | raised {e} (plain : e.kind ≠ .stopIteration) : Comes L (.raised e) (.error e)
  | stopped {e} (stop : e.kind = .stopIteration) :
      Comes L (.failed (.refused .endOfIteration)) (.error e)
  | failed {cause e} (made : Made L cause e) : Comes L (.failed cause) (.error e)
  | completed {r} : Comes L (.completed r) (.ok (.completed r))
  | forwards {x} (other : question x = .other) : Comes L (.forwards x) (.ok (.suspended x))
  | refused {x refusal} (refused : question x = .refused refusal) :
      Comes L (.failed (.refused refusal)) (.ok (.suspended x))
  | asks {x key} (asked : question x = .key key) : Comes L (.asks key) (.ok (.suspended x))

/-- A sight of a loop that shows this. -/
inductive Shows (L : Language) : Turnout → Sight → Prop where
  | raised {e} (plain : e.kind ≠ .stopIteration) : Shows L (.raised e) (.error e)
  | failed {cause e} (made : Made L cause e) : Shows L (.failed cause) (.error e)
  | completed {r} : Shows L (.completed r) (.ok (.completed r))
  | forwards {x} (other : question x = .other) : Shows L (.forwards x) (.ok (.suspended x))
  | asks {x key} (asked : question x = .key key) : Shows L (.asks key) (.ok (.suspended x))

theorem Shows.comes {o : Turnout} {sight : Sight} (h : Shows L o sight) : Comes L o sight := by
  cases h with
  | raised plain => exact .raised plain
  | failed made => exact .failed made
  | completed => exact .completed
  | forwards other => exact .forwards other
  | asks asked => exact .asks asked

theorem comes_turnout (sight : Sight) : Comes L (turnout sight) sight := by
  rcases sight with e | x | r
  · by_cases stop : e.kind = .stopIteration
    · simp only [turnout, if_pos stop]
      exact .stopped stop
    · simp only [turnout, if_neg stop]
      exact .raised stop
  · simp only [turnout]
    split
    · exact .forwards ‹_›
    · exact .refused ‹_›
    · exact .asks ‹_›
  · exact .completed

/-- The computation can go on. -/
def Turnout.isOpen : Turnout → Bool
  | .forwards _ | .asks _ => true
  | _ => false

def Leaves (scopes : List Scope) (o : Turnout) (p : Shadowed L U) : Prop :=
  if o.isOpen then ∀ v, Waits p scopes p.1.1.tokens.next p.1.1.computations.next v v
  else Over p scopes

/-- Drives of the stack turn out as the behaviour says. -/
structure Simulates (program : Program L) (steps depth : Nat) (c : Source U) (scopes : List Scope)
    (shows : Turnout → Sight → Prop) : Prop where
  forth : ∀ {p : Shadowed L U} {t n v u o u'}, Waits p scopes t n v u →
    behaviour c scopes u p.1.2 o u' →
    ∃ sight p', Ends (fun b => shadowed program steps depth c b scopes.length v) p sight p' ∧
      shows o sight ∧ p'.1.2 = u' ∧ Leaves scopes o p'
  back : ∀ {p : Shadowed L U} {t n v u sight p'}, Waits p scopes t n v u →
    Ends (fun b => shadowed program steps depth c b scopes.length v) p sight p' →
    ∃ o u', behaviour c scopes u p.1.2 o u'

theorem Simulates.imp {program : Program L} {steps depth : Nat} {c : Source U}
    {scopes : List Scope} {shows shows' : Turnout → Sight → Prop}
    (h : Simulates program steps depth c scopes shows)
    (weaker : ∀ o sight, shows o sight → shows' o sight) :
    Simulates program steps depth c scopes shows' where
  forth waits turns := by
    obtain ⟨sight, p', drive, seen, left⟩ := h.forth waits turns
    exact ⟨sight, p', drive, weaker _ _ seen, left⟩
  back := h.back

/-! ## One loop -/

section

variable {program : Program L} {steps depth : Nat} {c : Source U} {s : Scope} {scopes : List Scope}

theorem growing_shadowed (place : Nat) (v : Value) :
    Growing fun b => shadowed program steps depth c b place v :=
  growing_level place v

/-- How the loop of a scope has stopped when its drive comes to `o`. -/
inductive Stops (p : Shadowed L U) (scopes : List Scope) :
    Turnout → Except Error (Move Phase) → Prop where
  | raised {e} (plain : e.kind ≠ .stopIteration) : Stops p scopes (.raised e) (.error e)
  | stopped {e} (stop : e.kind = .stopIteration) :
      Stops p scopes (.failed (.refused .endOfIteration)) (.error e)
  | failed {cause e} (made : Made L cause e) : Stops p scopes (.failed cause) (.error e)
  | completed {r} : Stops p scopes (.completed r) (.ok (.complete r))
  | forwards {x} (other : question x = .other)
      (waits : ∀ v, Waits p scopes p.1.1.tokens.next p.1.1.computations.next v v) :
      Stops p scopes (.forwards x) (.ok (.suspend x .forwarding))
  | asks {key x y t n} (asked : question y = .key key) (asking : Asking t n p.1.1)
      (waits : ∀ v, Waits p scopes t n v v) :
      Stops p scopes (.asks key) (.ok (.suspend y (.handlerBody n x t)))

theorem Asking.bounds {t n : Nat} {w : World L} (h : Asking t n w) :
    t < w.tokens.next ∧ n < w.computations.next := by
  obtain ⟨⟨_, issued, -⟩, _, _, known, -⟩ := h
  exact ⟨Pool.lt_next issued, Pool.lt_next known⟩

theorem seal_stopped (program : Program L) (steps depth : Nat) {e : Error}
    (stop : e.kind = .stopIteration) (w : World L) :
    ∃ e' w', Life.seal (kernel program steps depth).mint (.error e : Except Error (Move Shell)) w =
        (.raised e', w') ∧ Made L (.refused .endOfIteration) e' := by
  obtain ⟨e', w', made, failed⟩ := mint_eq (.refused .endOfIteration) nofun w
  refine ⟨e', w', ?_, made⟩
  simp only [Life.seal, if_pos stop]
  exact failed

theorem Stops.left {p : Shadowed L U} {o : Turnout} {move : Except Error (Move Phase)}
    (h : Stops p scopes o move) (s : Scope) :
    Leaves (s :: scopes) o ((Cell.nth scopes.length).set
      (Life.left (move.map (Move.map (Shell.handling s.table)))) p) := by
  have own (life : Life Shell) : ((Cell.nth scopes.length).set life p).2 scopes.length = life :=
    Function.update_self _ _ _
  cases h with
  | raised => exact own _
  | stopped => exact own _
  | failed => exact own _
  | completed => exact own _
  | forwards other waits => exact fun v => .forwarding (own _) ((waits v).under _)
  | asks asked asking waits =>
    obtain ⟨ht, hn⟩ := asking.bounds
    exact fun v => .asking (own _) ht hn asking ((waits v).under _)

theorem Stops.shows (program : Program L) (steps depth : Nat) {p : Shadowed L U} {o : Turnout}
    {move : Except Error (Move Phase)} (h : Stops p scopes o move) (s : Scope) (w : World L) :
    ∃ sight w', Life.seal (kernel program steps depth).mint
        (move.map (Move.map (Shell.handling s.table))) w = (.of sight, w') ∧ Shows L o sight ∧
      (o.isOpen = true → w' = w) := by
  cases h with
  | @raised e plain =>
    refine ⟨.error e, w, ?_, .raised plain, fun _ => rfl⟩
    simp only [Except.map, Life.seal, if_neg plain]
    rfl
  | stopped stop =>
    obtain ⟨e, w', sealed, made⟩ := seal_stopped program steps depth stop w
    refine ⟨.error e, w', sealed, .failed made, ?_⟩
    rintro ⟨⟩
  | @failed cause e made =>
    refine ⟨.error e, w, ?_, .failed made, fun _ => rfl⟩
    simp only [Except.map, Life.seal, if_neg made.kind]
    rfl
  | completed => exact ⟨_, w, rfl, .completed, fun _ => rfl⟩
  | forwards other => exact ⟨_, w, rfl, .forwards other, fun _ => rfl⟩
  | asks asked => exact ⟨_, w, rfl, .asks asked, fun _ => rfl⟩

theorem Stops.sealed (program : Program L) (steps depth : Nat) {p : Shadowed L U} {o : Turnout}
    {move : Except Error (Move Phase)} (h : Stops p scopes o move) (s : Scope) :
    ∃ sight p', Life.seal (kernel program steps depth).beside.beside.mint
        (move.map (Move.map (Shell.handling s.table)))
        ((Cell.nth scopes.length).set
          (Life.left (move.map (Move.map (Shell.handling s.table)))) p) = (.of sight, p') ∧
      Shows L o sight ∧ p'.1.2 = p.1.2 ∧ Leaves (s :: scopes) o p' := by
  have left := h.left s
  obtain ⟨sight, w', sealed, shows, same⟩ := h.shows program steps depth s p.1.1
  rw [Dispatch.seal_beside, Dispatch.seal_beside]
  refine ⟨sight, _, beside_eq.mpr ⟨beside_eq.mpr ⟨sealed, rfl⟩, rfl⟩, shows, rfl, ?_⟩
  cases isOpen : o.isOpen with
  | true =>
    rw [same isOpen]
    exact left
  | false =>
    simp only [Leaves, isOpen] at left ⊢
    exact left

/-! ## The rounds of a loop -/

theorem react_shadowed {table : Table} {step : Step} {p : Shadowed L U}
    {d : Except Error Dispatch.Decision} {w' : World L}
    (reacts : react (kernel program steps depth) table step p.1.1 = (.of d, w')) :
    react (kernel program steps depth).beside.beside table step p =
      (.of d, ((w', p.1.2), p.2)) := by
  rw [Dispatch.react_beside, Dispatch.react_beside]
  exact beside_eq.mpr ⟨beside_eq.mpr ⟨reacts, rfl⟩, rfl⟩

/-- How the loop of a scope goes on from a decision. -/
abbrev Rounds (program : Program L) (steps depth : Nat) (c : Source U) (s : Scope)
    (scopes : List Scope) :
    Except Error Dispatch.Decision → Shadowed L U → Except Error (Move Phase) → Shadowed L U →
      Prop :=
  Runs (fun _ => (kernel program steps (depth + 2)).beside.beside) s.table
    fun b => shadowed program steps depth c b scopes.length

theorem rounds_stop {v : Value} {o : Turnout} {sight : Sight} {p p₁ : Shadowed L U}
    (drive : Ends (fun b => shadowed program steps depth c b scopes.length v) p sight p₁)
    (comes : Comes L o sight) (left : Leaves scopes o p₁)
    (unknown : ∀ key, o = .asks key → s.entries.get? key = none) :
    ∃ move p', Rounds program steps depth c s scopes (.ok (.proceed v)) p move p' ∧
      p'.1.2 = p₁.1.2 ∧ Stops p' scopes (s.leaves o) move := by
  have round {step : Step} {d : Except Error Dispatch.Decision} {w' : World L}
      (drive : Ends (fun b => shadowed program steps depth c b scopes.length v) p (.ok step) p₁)
      (reacts : react (kernel program steps (depth + 2)) s.table step p₁.1.1 = (.of d, w'))
      {move : Except Error (Move Phase)} {p' : Shadowed L U}
      (rest : Rounds program steps depth c s scopes d ((w', p₁.1.2), p₁.2) move p') :
      Rounds program steps depth c s scopes (.ok (.proceed v)) p move p' :=
    .round drive (ends_const.mpr (react_shadowed reacts)) rest
  -- One round is enough: what comes up is no question, so the scope lets it through.
  cases comes with
  | raised plain => exact ⟨_, p₁, .broken drive, rfl, .raised plain⟩
  | stopped stop => exact ⟨_, p₁, .broken drive, rfl, .stopped stop⟩
  | failed made => exact ⟨_, p₁, .broken drive, rfl, .failed made⟩
  | @completed r =>
    exact ⟨_, p₁, round (d := .ok (.stop (.complete r))) drive rfl .stop, rfl, .completed⟩
  | @forwards x other =>
    obtain ⟨w', reacts, tokens, computations⟩ :=
      react_other program steps (depth + 2) s other p₁.1.1
    refine ⟨_, _, round (d := .ok (.stop (.suspend x .forwarding))) drive reacts .stop, rfl,
      .forwards other fun v => ?_⟩
    rw [tokens, computations]
    exact (left v).newer ⟨fun _ _ => by rw [tokens], fun _ _ => by rw [computations]⟩ fun _ _ => rfl
  | @refused x refusal refused =>
    obtain ⟨e, w', reacts, made⟩ := react_refused program steps depth s refused p₁.1.1
    exact ⟨_, _, round (d := .error e) drive reacts .failed, rfl, .failed made⟩
  | @asks x key asked =>
    cases isLocal : s.isLocal with
    | true =>
      obtain ⟨y, w', reacts, asked', newer, asking⟩ :=
        react_outward program steps depth s isLocal asked (unknown key rfl) p₁.1.1
      refine ⟨_, _, round (d := .ok (.stop _)) drive reacts .stop, rfl, ?_⟩
      simp only [Scope.leaves, isLocal]
      exact .asks asked' asking fun v => (left v).newer newer fun _ _ => rfl
    | false =>
      obtain ⟨e, w', reacts, made⟩ :=
        react_missing program steps depth s isLocal asked (unknown key rfl) p₁.1.1
      refine ⟨_, _, round (d := .error e) drive reacts .failed, rfl, ?_⟩
      simp only [Scope.leaves, isLocal]
      exact .failed made

theorem react_known {key a : Value} {sight : Sight} {p : Shadowed L U}
    (comes : Comes L (.asks key) sight) (left : Leaves scopes (.asks key) p)
    (found : s.entries.get? key = some a) :
    ∃ step p' t n, sight = .ok step ∧
      react (kernel program steps (depth + 2)).beside.beside s.table step p =
        (.of (.ok (.proceed a)), p') ∧
      p'.1.2 = p.1.2 ∧ Waits p' scopes t n a a := by
  cases comes with
  | @asks x key asked =>
    obtain ⟨w', reacts, newer⟩ := react_found program steps depth s asked found p.1.1
    exact ⟨_, _, _, _, rfl, react_shadowed (d := .ok (.proceed a)) reacts, rfl,
      (left a).newer newer fun _ _ => rfl⟩

section

variable (inner : Simulates program steps depth c scopes (Comes L))

include inner

theorem rounds_of_answers {u : Value} {z z' : U} {o : Turnout}
    (h : Answers (behaviour c scopes) s.entries.get? u z o z') {p : Shadowed L U} {t n : Nat}
    {v : Value} (waits : Waits p scopes t n v u) (user : p.1.2 = z) :
    ∃ move p', Rounds program steps depth c s scopes (.ok (.proceed v)) p move p' ∧
      p'.1.2 = z' ∧ Stops p' scopes (s.leaves o) move := by
  -- Between two rounds nothing changes but how the scopes wait, so that is what is generalized.
  induction h generalizing p t n v with
  | ends turns unknown =>
    subst user
    obtain ⟨sight, p₁, drive, comes, rfl, left⟩ := inner.forth waits turns
    exact rounds_stop drive comes left unknown
  | answered asked found _ ih =>
    subst user
    obtain ⟨sight, p₁, drive, comes, rfl, left⟩ := inner.forth waits asked
    obtain ⟨step, p₂, t₂, n₂, rfl, reacts, user, waits⟩ := react_known comes left found
    obtain ⟨move, p', rounds, ended⟩ := ih waits user
    exact ⟨move, p', .round drive (ends_const.mpr reacts) rounds, ended⟩

theorem answers_of_rounds {d : Except Error Dispatch.Decision} {move : Except Error (Move Phase)}
    {p p' : Shadowed L U} (h : Rounds program steps depth c s scopes d p move p') {v u : Value}
    {t n : Nat} (goes : d = .ok (.proceed v)) (waits : Waits p scopes t n v u) :
    ∃ o z, Answers (behaviour c scopes) s.entries.get? u p.1.2 o z := by
  induction h generalizing v u t n with
  | failed => cases goes
  | stop => cases goes
  | @broken v p e p' drive =>
    cases goes
    obtain ⟨o, z, turns⟩ := inner.back waits drive
    obtain ⟨sight, p₁, drive', comes, -, -⟩ := inner.forth waits turns
    obtain ⟨rfl, -⟩ := (growing_shadowed scopes.length v).unique drive drive'
    refine ⟨o, z, .ends turns ?_⟩
    rintro key rfl
    cases comes
  | @round v p step p₁ d p₂ move p' drive reacts rest ih =>
    cases goes
    -- What the drive comes to is known from its own turnout, which the drive has only once.
    obtain ⟨o, z, turns⟩ := inner.back waits drive
    obtain ⟨sight, p₃, drive', comes, user, left⟩ := inner.forth waits turns
    obtain ⟨rfl, rfl⟩ := (growing_shadowed scopes.length v).unique drive drive'
    by_cases known : ∀ key, o = .asks key → s.entries.get? key = none
    · exact ⟨o, z, .ends turns known⟩
    · push Not at known
      obtain ⟨key, rfl, found⟩ := known
      obtain ⟨a, found⟩ := Option.ne_none_iff_exists'.mp found
      obtain ⟨step, p₃, t₃, n₃, ⟨⟩, reacts', same, waits⟩ := react_known comes left found
      obtain ⟨rfl, rfl⟩ := (growing_const _).unique reacts (ends_const.mpr reacts')
      obtain ⟨o, z', answers⟩ := ih rfl waits
      rw [same, user] at answers
      exact ⟨o, z', .answered turns found answers⟩

omit inner

theorem takeUp_waits (program : Program L) (steps depth : Nat) {p : Shadowed L U} {t n : Nat}
    {v u : Value} (waits : Waits p (s :: scopes) t n v u) :
    ∃ phase v₁ v₂ p₁ t₁ n₁, (p.2 scopes.length).enters? v = some (.handling s.table phase, v₁) ∧
      takeUp (kernel program steps (depth + 2)).beside.beside phase v₁
          ((Cell.nth scopes.length).set (.running (.handling s.table phase)) p) =
        (.of (.ok (.proceed v₂)), p₁) ∧
      Waits p₁ scopes t₁ n₁ v₂ u ∧ p₁.1.2 = p.1.2 := by
  cases waits with
  | fresh life rest =>
    exact ⟨.start, .nil, .nil, _, t, n, by rw [life]; rfl, rfl, rest.under _, rfl⟩
  | forwarding life rest =>
    exact ⟨.forwarding, v, v, _, t, n, by rw [life]; rfl, rfl, rest.under _, rfl⟩
  | @asking _ _ _ _ _ _ x t₀ n₀ life ht hn asks rest =>
    obtain ⟨w', taken, newer⟩ := takeUp_answered program steps depth asks x v
    let p₀ := (Cell.nth scopes.length).set (.running (.handling s.table (.handlerBody n₀ x t₀))) p
    have waits : Waits p₀ scopes t₀ n₀ v u := rest.under _
    refine ⟨.handlerBody n₀ x t₀, v, v, ((w', p.1.2), p₀.2), t₀, n₀, by rw [life]; rfl, ?_,
      waits.newer newer fun _ _ => rfl, rfl⟩
    rw [Dispatch.takeUp_beside, Dispatch.takeUp_beside]
    exact beside_eq.mpr ⟨beside_eq.mpr ⟨taken, rfl⟩, rfl⟩

include inner

/-- A loop around a stack that simulates its behaviour does so with one scope more. -/
theorem Simulates.scope (s : Scope) :
    Simulates program steps depth c (s :: scopes) (Shows L) where
  forth := by
    rintro p t n v u o z' waits ⟨o, answers, rfl⟩
    obtain ⟨phase, v₁, v₂, p₁, t₁, n₁, entry, taken, waits, user⟩ :=
      takeUp_waits program steps depth waits
    obtain ⟨move, p₂, rounds, rfl, stops⟩ := rounds_of_answers inner answers waits user
    obtain ⟨sight, p', sealed, shows, user, left⟩ := stops.sealed program steps (depth + 2) s
    refine ⟨sight, p', ?_, shows, user, left⟩
    refine (Life.ends_entered entry).mpr ⟨_, p₂, ?_, sealed⟩
    exact (Shell.ends_handling (growing_shadowed scopes.length)).mpr
      ⟨_, p₁, move, taken, rounds, rfl⟩
  back := by
    intro p t n v u sight p' waits drive
    obtain ⟨phase, v₁, v₂, p₁, t₁, n₁, entry, taken, waits, user⟩ :=
      takeUp_waits program steps depth waits
    obtain ⟨_, p₂, run, -⟩ := (Life.ends_entered entry).mp drive
    obtain ⟨d, p₃, move, taken', rounds, -⟩ :=
      (Shell.ends_handling (growing_shadowed scopes.length)).mp run
    obtain ⟨rfl, rfl⟩ := (growing_const _).unique (ends_const.mpr taken) (ends_const.mpr taken')
    obtain ⟨o, z, answers⟩ := answers_of_rounds inner rounds rfl waits
    rw [user] at answers
    exact ⟨s.leaves o, z, o, answers, rfl⟩

omit inner

theorem simulates_source : Simulates program steps depth c [] (Comes L) where
  forth := by
    rintro p t n v u o z' ⟨⟩ ⟨sight, run, rfl⟩
    refine ⟨sight, ((p.1.1, z'), p.2), ends_const.mpr ?_, comes_turnout sight, rfl, ?_⟩
    · exact beside_eq.mpr ⟨within_eq.mpr ⟨z', run, rfl⟩, rfl⟩
    · unfold Leaves
      split
      · exact fun v => .source
      · trivial
  back := by
    rintro p t n v u sight p' ⟨⟩ drive
    obtain ⟨z, run, -⟩ := within_eq.mp (beside_eq.mp (ends_const.mp drive)).1
    exact ⟨turnout sight, z, sight, run, rfl⟩

theorem simulates (program : Program L) (steps depth : Nat) (c : Source U) (scopes : List Scope) :
    Simulates program steps depth c scopes (Comes L) := by
  induction scopes with
  | nil => exact simulates_source
  | cons s scopes ih => exact (ih.scope s).imp fun _ _ => Shows.comes

end

end

/-! ## Sessions -/

/-- The same error, or two errors that are made for the same cause. -/
def SameFailure (L : Language) (e e' : Error) : Prop :=
  e = e' ∨ ∃ cause, Made L cause e ∧ Made L cause e'

theorem SameFailure.symm {e e' : Error} : SameFailure L e e' → SameFailure L e' e
  | .inl h => .inl h.symm
  | .inr ⟨cause, made, made'⟩ => .inr ⟨cause, made', made⟩

/-- Both drivers drive with the same value. Before that, they may change anything in the world but
the tokens and computations that there are, and they do the same to what the computation knows. -/
structure SameTurn (t t' : Turn (World L × U)) : Prop where
  value : t.value = t'.value
  user : ∀ p p' : World L × U, p.2 = p'.2 → (t.change p).2 = (t'.change p').2
  left : ∀ p, Newer p.1.tokens.next p.1.computations.next p.1 (t.change p).1
  right : ∀ p, Newer p.1.tokens.next p.1.computations.next p.1 (t'.change p).1

theorem SameTurn.symm {t t' : Turn (World L × U)} (h : SameTurn t t') : SameTurn t' t :=
  ⟨h.value.symm, fun p p' same => (h.user p' p same.symm).symm, h.right, h.left⟩

/-- The driver changes all but the lives of the loops. -/
def change (f : World L × U → World L × U) (p : Shadowed L U) : Shadowed L U := (f p.1, p.2)

/-- Two stacks that wait for the same drive of the computation, or that are both over. -/
def Paired (A B : List Scope) (p q : Shadowed L U) : Prop :=
  p.1.2 = q.1.2 ∧
    ((∀ v, ∃ u, (∃ t n, Waits p A t n v u) ∧ ∃ t n, Waits q B t n v u) ∨ Over p A ∧ Over q B)

theorem Waits.change {p : Shadowed L U} {scopes : List Scope} {t n : Nat} {v u : Value}
    (h : Waits p scopes t n v u) {f : World L × U → World L × U}
    (newer : Newer p.1.1.tokens.next p.1.1.computations.next p.1.1 (f p.1).1) :
    Waits (change f p) scopes t n v u :=
  h.imp (fun _ _ _ _ asks => asks.newer newer asks.bounds.1 asks.bounds.2) (fun _ _ => rfl)
    (Nat.le_refl _) (Nat.le_refl _)

theorem Over.change {p : Shadowed L U} {scopes : List Scope} (h : Over p scopes)
    (f : World L × U → World L × U) : Over (change f p) scopes := by
  cases scopes <;> exact h

theorem Paired.change {A B : List Scope} {p q : Shadowed L U} (h : Paired A B p q)
    {t t' : Turn (World L × U)} (same : SameTurn t t') :
    Paired A B (change t.change p) (change t'.change q) := by
  obtain ⟨user, waits | ⟨left, right⟩⟩ := h
  · refine ⟨same.user _ _ user, Or.inl fun v => ?_⟩
    obtain ⟨u, ⟨t₁, n₁, left⟩, t₂, n₂, right⟩ := waits v
    exact ⟨u, ⟨t₁, n₁, left.change (same.left _)⟩, t₂, n₂, right.change (same.right _)⟩
  · exact ⟨same.user _ _ user, Or.inr ⟨left.change _, right.change _⟩⟩

theorem Paired.of_leaves {A B : List Scope} {o : Turnout} {p q : Shadowed L U}
    (user : p.1.2 = q.1.2) (left : Leaves A o p) (right : Leaves B o q) : Paired A B p q := by
  cases isOpen : o.isOpen with
  | true =>
    simp only [Leaves, isOpen, if_true] at left right
    exact ⟨user, Or.inl fun v => ⟨v, ⟨_, _, left v⟩, _, _, right v⟩⟩
  | false =>
    simp only [Leaves, isOpen, Bool.false_eq_true, if_false] at left right
    exact ⟨user, Or.inr ⟨left, right⟩⟩

theorem Shows.matched {o : Turnout} {sight sight' : Sight} (h : Shows L o sight)
    (h' : Shows L o sight') (settled : ∀ key, o ≠ .asks key) :
    Sight.Matches (SameFailure L) sight sight' := by
  cases h with
  | raised plain =>
    cases h' with
    | raised _ => exact .raised (Or.inl rfl)
  | failed made =>
    cases h' with
    | failed made' => exact .raised (Or.inr ⟨_, made, made'⟩)
  | completed =>
    cases h' with
    | completed => exact .ok rfl
  | forwards other =>
    cases h' with
    | forwards _ => exact .ok rfl
  | asks asked => exact absurd rfl (settled _)

section

variable {program : Program L} {steps depth : Nat} {c : Source U} {s s' : Scope} {A B : List Scope}
  (reader : s.isLocal = false)
  (agree : ∀ {v u o u'}, behaviour c (s :: A) v u o u' → behaviour c (s' :: B) v u o u')

include reader agree

theorem drive_paired {p q p₁ : Shadowed L U} (paired : Paired (s :: A) (s' :: B) p q) {v : Value}
    {sight : Sight}
    (drive : Ends (fun b => shadowed program steps depth c b (s :: A).length v) p sight p₁) :
    ∃ sight' q₁, Ends (fun b => shadowed program steps depth c b (s' :: B).length v) q sight' q₁ ∧
      Sight.Matches (SameFailure L) sight sight' ∧ Paired (s :: A) (s' :: B) p₁ q₁ := by
  have first := (simulates program steps depth c A).scope s
  have second := (simulates program steps depth c B).scope s'
  obtain ⟨user, waits | ⟨left, right⟩⟩ := paired
  · obtain ⟨u, ⟨t₁, n₁, left⟩, t₂, n₂, right⟩ := waits v
    obtain ⟨o, u', turns⟩ := first.back left drive
    obtain ⟨_, _, drive', shows, user₁, leaves⟩ := first.forth left turns
    obtain ⟨rfl, rfl⟩ := (growing_shadowed _ v).unique drive drive'
    -- A reader handler asks nobody, so its own questions are not seen by the driver.
    have settled (key : Value) : o ≠ .asks key := by
      obtain ⟨o₁, -, rfl⟩ := turns
      cases o₁ <;> simp [Scope.leaves, reader]
    rw [user] at turns
    obtain ⟨sight', q₁, drive', shows', user₂, leaves'⟩ := second.forth right (agree turns)
    exact ⟨sight', q₁, drive', shows.matched shows' settled,
      .of_leaves (user₁.trans user₂.symm) leaves leaves'⟩
  · have ended {place : Nat} {p : Shadowed L U} (isOver : p.2 place = .finished) :
        Ends (fun b => shadowed program steps depth c b (place + 1) v) p
          (.ok (.completed .nil)) p :=
      ⟨0, Life.drive_finished isOver⟩
    obtain ⟨rfl, rfl⟩ := (growing_shadowed _ v).unique drive (ended left)
    exact ⟨_, q, ended right, .ok rfl, user, Or.inr ⟨left, right⟩⟩

theorem session_paired {turns turns' : List (Turn (World L × U))}
    (same : List.Forall₂ SameTurn turns turns') {p q p' : Shadowed L U} {seen : List Sight}
    (paired : Paired (s :: A) (s' :: B) p q)
    (session : Ends (fun b => takeTurns (fun _ => shadowed program steps depth c b (s :: A).length)
      change turns) p (.ok seen) p') :
    ∃ seen' q', Ends (fun b => takeTurns (fun _ =>
        shadowed program steps depth c b (s' :: B).length) change turns') q (.ok seen') q' ∧
      List.Forall₂ (Sight.Matches (SameFailure L)) seen seen' ∧ p'.1.2 = q'.1.2 := by
  induction same generalizing p q seen with
  | nil =>
    obtain ⟨⟨⟩, rfl⟩ := pure_eq_of.mp (ends_const.mp session)
    exact ⟨[], q, ends_const.mpr rfl, .nil, paired.1⟩
  | @cons t t' turns turns' same _ ih =>
    obtain ⟨sight, p₁, rest, drive, later, rfl⟩ :=
      (ends_takeTurns fun _ v => growing_shadowed _ v).mp session
    obtain ⟨sight', q₁, drive', seen, paired⟩ :=
      drive_paired reader agree (paired.change same) drive
    rw [same.value] at drive'
    obtain ⟨seen', q', later', rests, user⟩ := ih paired later
    exact ⟨_, q', (ends_takeTurns fun _ v => growing_shadowed _ v).mpr
      ⟨sight', q₁, seen', drive', later', rfl⟩, .cons seen rests, user⟩

end

/-! ## Local environments -/

def readerLayer (id : Nat) (env : Assoc Value) : Layer :=
  .handle (singleTable "reader" "ask" (.native id (.readerAsk env)))

/-- The layers of overrides, which are given from the outermost on, and of an environment. -/
def surroundings (id : Nat) (env : Assoc Value) (overrides : List (Nat × Assoc Value)) :
    List Layer :=
  (overrides.reverse.map fun o => .shadow o.1 o.2) ++ [readerLayer id env]

/-- A driver of the outermost computation sees this, and the computation is left with this. -/
def Sees (program : Program L) (steps depth : Nat) (c : Source U) (layers : List Layer)
    (turns : List (Turn (World L × U))) (w : World L) (u : U) (seen : List Sight) (u' : U) : Prop :=
  ∃ p, Ends (fun b => takeTurns (fun _ => shadowed program steps depth c b layers.length) change
    turns) ((w, u), Layer.lives layers) (.ok seen) p ∧ p.1.2 = u'

def Scope.layer (s : Scope) : Layer :=
  if s.isLocal then .shadow s.id s.entries else .handle s.table

theorem Scope.shell_layer (s : Scope) : s.layer.shell = .handling s.table .start := by
  obtain ⟨id, isLocal, entries⟩ := s
  cases isLocal <;> rfl

theorem surroundings_eq (id : Nat) (env : Assoc Value) (overrides : List (Nat × Assoc Value)) :
    surroundings id env overrides =
      ((⟨id, false, env⟩ :: locals overrides).map Scope.layer).reverse := by
  simp only [surroundings, locals, List.map_cons, List.map_map, List.reverse_cons, List.map_reverse]
  rfl

theorem waits_fresh (s : Scope) (scopes : List Scope) (outer : List Layer) (w : World L) (u : U)
    (v : Value) :
    Waits ((w, u), Layer.lives (((s :: scopes).map Scope.layer).reverse ++ outer))
      (s :: scopes) 0 0 v .nil := by
  have life (s : Scope) (scopes : List Scope) (outer : List Layer) :
      Layer.lives (((s :: scopes).map Scope.layer).reverse ++ outer) scopes.length =
        .fresh (.handling s.table .start) := by
    simp [Layer.lives, Scope.shell_layer]
  induction scopes generalizing s outer v with
  | nil => exact .fresh (life s [] outer) .source
  | cons s' scopes ih =>
    have split : ((s :: s' :: scopes).map Scope.layer).reverse ++ outer =
        ((s' :: scopes).map Scope.layer).reverse ++ s.layer :: outer := by simp
    refine .fresh (life s (s' :: scopes) outer) ?_
    rw [split]
    exact ih s' (s.layer :: outer) .nil

theorem paired_fresh (s s' : Scope) (A B : List Scope) (w w' : World L) (u : U) :
    Paired (s :: A) (s' :: B)
      ((w, u), Layer.lives ((s :: A).map Scope.layer).reverse)
      ((w', u), Layer.lives ((s' :: B).map Scope.layer).reverse) := by
  refine ⟨rfl, Or.inl fun v => ⟨.nil, ⟨0, 0, ?_⟩, 0, 0, ?_⟩⟩
  · rw [← List.append_nil (List.reverse _)]
    exact waits_fresh s A [] w u v
  · rw [← List.append_nil (List.reverse _)]
    exact waits_fresh s' B [] w' u v

theorem sees_of_agree {program : Program L} {steps depth : Nat} {c : Source U} {s s' : Scope}
    {A B : List Scope} (reader : s.isLocal = false)
    (agree : ∀ {v u o u'}, behaviour c (s :: A) v u o u' → behaviour c (s' :: B) v u o u')
    {turns turns' : List (Turn (World L × U))} (same : List.Forall₂ SameTurn turns turns')
    {w : World L} (w' : World L) {u u' : U} {seen : List Sight}
    (sees : Sees program steps depth c ((s :: A).map Scope.layer).reverse turns w u seen u') :
    ∃ seen', Sees program steps depth c ((s' :: B).map Scope.layer).reverse turns' w' u seen' u' ∧
      List.Forall₂ (Sight.Matches (SameFailure L)) seen seen' := by
  obtain ⟨p, session, rfl⟩ := sees
  rw [List.length_reverse, List.length_map] at session
  obtain ⟨seen', q, session', matched, user⟩ :=
    session_paired reader agree same (paired_fresh s s' A B w w' u) session
  refine ⟨seen', ⟨q, ?_, user.symm⟩, matched⟩
  rw [List.length_reverse, List.length_map]
  exact session'

/-- The handlers of an environment and the local environments are made with what their mappings hold
at that time. -/
theorem made_of_mapping (host : Host (World L)) (bound : Nat) {v : Value} {entries : Assoc Value}
    {w : World L} (given : w.mapping? v = some entries) :
    (∃ t w₁, readerHandlers host bound v w = (.ok t, w₁) ∧ ∀ n, ∃ m w₂,
      Handled host (.computation n) t w₁ m w₂ ∧
        (lifeCell m).get w₂ = .fresh ((readerLayer w.nextId entries).shell.body n)) ∧
    ∀ source n w₁, toComputation host source (w.takeIds 1).2 = (.ok n, w₁) → ∃ m w₂,
      shadow host bound v source w = (.ok (.computation m), w₂) ∧
        (lifeCell m).get w₂ = .fresh ((Layer.shadow w.nextId entries).shell.body n) := by
  refine ⟨?_, ?_⟩
  · obtain ⟨t, w₁, written, holds⟩ := writeTable_holds
      (singleTable "reader" "ask" (.native w.nextId (.readerAsk entries))) (w.takeIds 1).2
    refine ⟨t, w₁, ?_, fun n => ?_⟩
    · rw [readerHandlers, bind_ok (givenEntries_mapping host bound given)]
      exact written
    · have source : toComputation host (.computation n) w₁ = (.ok n, w₁) := rfl
      exact ⟨_, _, handled_holds source (holds w₁ fun _ _ => rfl), life_addComputation _ _ _⟩
  · intro source n w₁ made
    refine ⟨_, _, ?_, life_addComputation "_handle" _ w₁⟩
    rw [shadow, bind_ok (entriesOf_mapping host bound given)]
    refine (bind_ok made).trans ?_
    rw [← fst_addComputation "_handle" ((Layer.shadow w.nextId entries).shell.body n)]
    rfl

/-- Local environments shadow the ones around them. A computation in overrides and in a reader
handler shows the same to a driver as in one reader handler whose environment is updated with the
overrides in turn, the innermost last: in each drive the same action is forwarded, or the result or
the error is the same, and what the computation knows becomes the same, so it is given the same
answers. A key that nobody has raises the same error. The handlers are made with what the mappings
hold at that time, and it makes no difference what the drivers do to mappings later. Equality of
keys is an equivalence on them, as it is on all well-formed values. -/
theorem local_shadows (program : Program L) (steps depth : Nat) :
    (∀ (host : Host (World L)) (bound : Nat) (v : Value) (entries : Assoc Value) (w : World L),
      w.mapping? v = some entries →
      (∃ t w₁, readerHandlers host bound v w = (.ok t, w₁) ∧ ∀ n, ∃ m w₂,
        Handled host (.computation n) t w₁ m w₂ ∧
          (lifeCell m).get w₂ = .fresh ((readerLayer w.nextId entries).shell.body n)) ∧
      ∀ source n w₁, toComputation host source (w.takeIds 1).2 = (.ok n, w₁) → ∃ m w₂,
        shadow host bound v source w = (.ok (.computation m), w₂) ∧
          (lifeCell m).get w₂ = .fresh ((Layer.shadow w.nextId entries).shell.body n)) ∧
    ∀ (U : Type) (c : Source U) (env : Assoc Value) (overrides : List (Nat × Assoc Value))
      (id id' : Nat) (turns turns' : List (Turn (World L × U))) (w w' : World L) (u : U),
      (∀ e ∈ env, e.1.Exact) → (∀ o ∈ overrides, o.2.Regular) →
      List.Forall₂ SameTurn turns turns' →
      let nested := surroundings id env overrides
      let flat := surroundings id' (overrides.foldl (fun m o => m.update o.2) env) []
      (∀ seen u', Sees program steps depth c nested turns w u seen u' → ∃ seen',
        Sees program steps depth c flat turns' w' u seen' u' ∧
          List.Forall₂ (Sight.Matches (SameFailure L)) seen seen') ∧
      ∀ seen' u', Sees program steps depth c flat turns' w' u seen' u' → ∃ seen,
        Sees program steps depth c nested turns w u seen u' ∧
          List.Forall₂ (Sight.Matches (SameFailure L)) seen seen' := by
  refine ⟨fun host bound v entries w given => made_of_mapping host bound given, ?_⟩
  intro U c env overrides id id' turns turns' w w' u exact regular same nested flat
  have agree {v : Value} {u u' : U} {o : Turnout} :
      behaviour c (⟨id, false, env⟩ :: locals overrides) v u o u' ↔
        behaviour c [⟨id', false, overrides.foldl (fun m o => m.update o.2) env⟩] v u o u' :=
    behaviour_updated c exact regular id id'
  simp only [nested, flat, surroundings_eq]
  refine ⟨fun seen u' sees => ?_, fun seen' u' sees => ?_⟩
  · exact sees_of_agree rfl agree.mp same w' sees
  · -- The other way round the drivers change places, and so do the errors.
    have flipped : List.Forall₂ SameTurn turns' turns := (same.imp fun _ _ h => h.symm).flip
    obtain ⟨seen, sees, matched⟩ := sees_of_agree rfl agree.mpr flipped w sees
    exact ⟨seen, sees, (matched.imp fun _ _ h => h.symm SameFailure.symm).flip⟩

namespace TwoKeys

def language : Language := ⟨Unit, Unit, Unit⟩

def program : Program language where
  call _ _ _ _ := return .nil
  advance _ _ _ _ := return .complete .nil
  delegate? _ := none
  names _ _ := false
  lost _ _ := []

def ask (key : String) : Value := .action 0 (.str "reader") (.str "ask") 0 [.str key]

/-- Asks for two keys and keeps what it is driven with. -/
def source (v : Value) : Exec (List Value) Step := do
  Exec.modify (v :: ·)
  match ← Exec.read List.length with
  | 1 => return .suspended (ask "a")
  | 2 => return .suspended (ask "b")
  | _ => return .completed .nil

def env : Assoc Value := [(.str "a", .int 10), (.str "b", .int 2)]

def overrides : Assoc Value := [(.str "a", .int 1)]

def start : World language :=
  { memory := ()
    dicts := ⟨#[env, overrides]⟩
    computations := ⟨#[{ name := "c", life := .fresh (.task ()) }]⟩ }

def clear (p : World language × List Value) : World language × List Value :=
  ({ p.1 with dicts := ⟨#[[], []]⟩ }, p.2)

theorem sameTurn_clear :
    SameTurn ⟨0, clear, .nil⟩ (⟨0, id, .nil⟩ : Turn (World language × List Value)) :=
  ⟨rfl, fun _ _ same => same, fun _ => ⟨fun _ _ => rfl, fun _ _ => rfl⟩,
    fun _ => ⟨fun _ _ => rfl, fun _ _ => rfl⟩⟩

end TwoKeys

open TwoKeys in
/-- One key is overridden, and the other one is answered by the environment around, whose mapping is
empty by then. -/
theorem local_shadows_small :
    (∃ m w, shadow (kernel program 1 2) 1 (.dict 1) (.computation 0) start =
        (.ok (.computation m), w) ∧
      (lifeCell m).get w = .fresh ((Layer.shadow 0 overrides).shell.body 0)) ∧
    Sees program 1 0 source (surroundings 1 env [(0, overrides)]) [⟨0, clear, .nil⟩] start []
      [.ok (.completed .nil)] [.int 2, .int 1, .nil] := by
  obtain ⟨made, sees⟩ := local_shadows program 1 0
  have spawned := (made (kernel program 1 2) 1 (.dict 1) overrides start rfl).2
  refine ⟨spawned (.computation 0) 0 _ rfl, ?_⟩
  have exact : ∀ e ∈ env, e.1.Exact := by
    simp only [env, List.mem_cons, List.not_mem_nil, or_false]
    rintro e (rfl | rfl) <;> exact Value.exact_str _
  have regular : ∀ o ∈ [(0, overrides)], o.2.Regular := by
    simp only [List.mem_singleton, overrides]
    rintro o rfl
    exact ⟨by simp [Value.exact_str], List.pairwise_singleton _ _⟩
  have flat : Sees program 1 0 source (surroundings 1 (env.update overrides) []) [⟨0, id, .nil⟩]
      start [] [.ok (.completed .nil)] [.int 2, .int 1, .nil] := ⟨_, ⟨3, rfl⟩, rfl⟩
  obtain ⟨seen, nested, matched⟩ := (sees _ source env [(0, overrides)] 1 1 _ _ start start []
    exact regular (.cons sameTurn_clear .nil)).2 _ _ flat
  cases matched with
  | cons sight rest =>
    cases rest
    rw [sight.eq_ok] at nested
    exact nested

end OneShot.World.Shadowing
