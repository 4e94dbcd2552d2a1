import OneShot.Proofs.Protocol

/-!
# What a log says about an action

A log that follows the protocol tells what has been done about the action that is handled: the
source has yielded it last, a token was made, its entry was called, and the computation of the entry
was driven. It also tells what comes next: the computation is driven to its end, and the token
decides.
-/

namespace OneShot.Protocol

open Dispatch (Phase parametersOf)

variable {table : Table} {s s₁ s₂ : Stage} {x : Act} {log log' : List Act}

/-! ## Parts of a log -/

theorem follows_cons :
    Follows table s (x :: log) s₂ ↔ ∃ s₁, Allowed table s x s₁ ∧ Follows table s₁ log s₂ := by
  constructor
  · rintro (_ | ⟨allowed, rest⟩)
    exact ⟨_, allowed, rest⟩
  · rintro ⟨s₁, allowed, rest⟩
    exact .cons allowed rest

theorem follows_append :
    Follows table s (log ++ log') s₂ ↔
      ∃ s₁, Follows table s log s₁ ∧ Follows table s₁ log' s₂ := by
  constructor
  · intro h
    induction log generalizing s with
    | nil => exact ⟨s, .nil, h⟩
    | cons a log ih =>
      obtain ⟨s₁, allowed, rest⟩ := follows_cons.mp h
      obtain ⟨s₂, h₁, h₂⟩ := ih rest
      exact ⟨s₂, .cons allowed h₁, h₂⟩
  · rintro ⟨s₁, h₁, h₂⟩
    exact h₁.trans h₂

/-! ## What has been done -/

/-- The act is one of an exchange with the computation that an entry has returned. -/
def Act.InBody (n : Nat) : Act → Prop
  | .drove m _ _ => m = n
  | .gave _ | .sent _ => True
  | _ => False

theorem Act.InBody.not_advanced {n : Nat} {a : Act} (h : a.InBody n) : a.isAdvanced = false := by
  cases a with
  | advanced v r => exact h.elim
  | _ => rfl

/-- A token that was not there before is pending for the action. -/
def NewToken (action : Value) (token : Nat) (before after : Nat → Option Token) : Prop :=
  before token = none ∧ ∃ t, after token = some t ∧ t.action = action ∧ t.outcome = none

/-- The source has yielded the action and was not driven again. The entry `f` of the action was
called with a new token, and what it returned was driven since then. -/
structure Handles (table : Table) (log : List Act) (action f : Value) (token : Nat)
    (r : Result Value) (exchange : List Act) : Prop where
  claimed : table.claim action = .entry f
  callable : f.isCallable = true
  acts : ∃ earlier v before after, NewToken action token before after ∧
    log = earlier ++ .advanced v (.ok (.suspended action)) ::
      .issued action (.ok token) before after ::
      .called f (parametersOf action ++ [.tactics token]) r :: exchange
  body : ∀ a ∈ exchange, ∃ n, r = .ok (.computation n) ∧ a.InBody n

/-- What a log has come to, if it has come to this stage. -/
def Past (table : Table) (log : List Act) : Stage → Prop
  | .claimed action f =>
    table.claim action = .entry f ∧ f.isCallable = true ∧
      ∃ earlier v, log = earlier ++ [.advanced v (.ok (.suspended action))]
  | .issued action f token =>
    table.claim action = .entry f ∧ f.isCallable = true ∧
      ∃ earlier v before after, NewToken action token before after ∧ log = earlier ++
        [.advanced v (.ok (.suspended action)), .issued action (.ok token) before after]
  | .runs n action token _ | .yields _ (.handlerBody n action token)
  | .waits (.handlerBody n action token) =>
    ∃ f exchange, Handles table log action f token (.ok (.computation n)) exchange
  | .settles action token =>
    ∃ f returned exchange, Handles table log action f token (.ok returned) exchange
  | _ => True

theorem Handles.snoc {action f : Value} {token n : Nat} {exchange : List Act} {a : Act}
    (h : Handles table log action f token (.ok (.computation n)) exchange) (ha : a.InBody n) :
    Handles table (log ++ [a]) action f token (.ok (.computation n)) (exchange ++ [a]) := by
  obtain ⟨earlier, v, before, after, new, hlog⟩ := h.acts
  refine ⟨h.claimed, h.callable, ⟨earlier, v, before, after, new, ?_⟩, ?_⟩
  · rw [hlog]
    simp
  · intro b hb
    rcases List.mem_append.mp hb with hb | hb
    · exact h.body b hb
    · rw [List.mem_singleton.mp hb]
      exact ⟨n, rfl, ha⟩

theorem Handles.still {action f : Value} {token : Nat} {r : Result Value} {exchange : List Act}
    (h : Handles table log action f token r exchange) :
    ∃ earlier v later, log = earlier ++ .advanced v (.ok (.suspended action)) :: later ∧
      ∀ a ∈ later, a.isAdvanced = false := by
  obtain ⟨earlier, v, before, after, -, hlog⟩ := h.acts
  refine ⟨earlier, v, _, hlog, fun a ha => ?_⟩
  rcases List.mem_cons.mp ha with rfl | ha
  · rfl
  rcases List.mem_cons.mp ha with rfl | ha
  · rfl
  obtain ⟨n, -, body⟩ := h.body a ha
  exact body.not_advanced

theorem handles_of_called {action f : Value} {token : Nat}
    (past : Past table log (.issued action f token)) (r : Result Value) :
    Handles table (log ++ [.called f (parametersOf action ++ [.tactics token]) r]) action f token r
      [] := by
  obtain ⟨claimed, callable, earlier, v, before, after, new, hlog⟩ := past
  refine ⟨claimed, callable, ⟨earlier, v, before, after, new, ?_⟩, List.forall_mem_nil _⟩
  rw [hlog]
  simp

theorem past_owing (earlier : List Act) (v y : Value) :
    Past table (earlier ++ [.advanced v (.ok (.suspended y))]) (.owing table y) := by
  unfold Stage.owing
  cases hclaim : table.claim y with
  | unclaimed => trivial
  | notKey name => trivial
  | entry f =>
    by_cases callable : f.isCallable
    · simp only [if_pos callable]
      exact ⟨hclaim, callable, earlier, v, rfl⟩
    · simp only [if_neg callable]
      trivial

theorem past_step (past : Past table log s) (allowed : Allowed table s x s₁) :
    Past table (log ++ [x]) s₁ := by
  -- Each act is checked against the stage that it leads to. The acts that leave a handler carry on
  -- what is known of its action, and the other stages ask for nothing.
  cases allowed with
  | @take phase v =>
    match phase with
    | .start => trivial
    | .forwarding => trivial
    | .handlerBody n action token =>
      obtain ⟨f, exchange, h⟩ := past
      exact ⟨f, _, h.snoc trivial⟩
  | idle => trivial
  | @advance v r =>
    match r with
    | .ok (.suspended y) => exact past_owing log v y
    | .ok (.completed _) => trivial
    | .raised e => trivial
    | .exhausted => trivial
  | @issue action f token before after t fresh added own pending =>
    obtain ⟨claimed, callable, earlier, v, hlog⟩ := past
    refine ⟨claimed, callable, earlier, v, before, after, ⟨fresh, t, added, own, pending⟩, ?_⟩
    rw [hlog]
    simp
  | @call action f token r =>
    have h := handles_of_called past r
    match r with
    | .ok returned =>
      simp only [Stage.onward, Stage.called]
      cases hn : returned.computation? with
      | none => exact ⟨f, returned, _, h⟩
      | some n =>
        obtain rfl := Value.eq_of_computation? hn
        exact ⟨f, _, h⟩
    | .raised e => trivial
    | .exhausted => trivial
  | @drive n action token v r =>
    obtain ⟨f, exchange, h⟩ := past
    have h := h.snoc (a := .drove n v r) rfl
    match r with
    | .ok (.suspended y) => exact ⟨f, _, h⟩
    | .ok (.completed _) => exact ⟨f, _, _, h⟩
    | .raised e => trivial
    | .exhausted => trivial
  | @conclude action token record =>
    match record.bind (·.outcome) with
    | none => trivial
    | some (.abort v) => trivial
    | some (.resume v) => trivial
  | refuse => trivial
  | convert => trivial
  | @suspend y phase =>
    match phase with
    | .start => trivial
    | .forwarding => trivial
    | .handlerBody n action token =>
      obtain ⟨f, exchange, h⟩ := past
      exact ⟨f, _, h.snoc trivial⟩
  | complete => trivial
  | raise => trivial

theorem past_of_follows (past : Past table log s) (follows : Follows table s log' s₁) :
    Past table (log ++ log') s₁ := by
  -- The log so far grows with each act, so it is general in the induction.
  induction follows generalizing log with
  | nil => simpa using past
  | cons allowed _ ih =>
    have h := ih (past_step past allowed)
    rw [List.append_assoc] at h
    exact h

/-! ## How the handling of an action ends -/

/-- The act runs code of the program: the source, an entry, or a computation of an entry. -/
def Act.runsCode : Act → Bool
  | .advanced .. | .called .. | .drove .. => true
  | _ => false

/-- The act ends what the entry of an action does: the entry returned no computation, or the one
that it returned completes. -/
def Act.Finishes : Act → Prop
  | .called _ _ (.ok returned) => returned.computation? = none
  | .drove _ _ (.ok (.completed _)) => True
  | _ => False

/-- An entry raises, or the computation that it returned does. -/
def Act.Fails (e : Error) : Act → Prop
  | .called _ _ (.raised e') | .drove _ _ (.raised e') => e' = e
  | _ => False

theorem Act.Finishes.inner {a : Act} (h : a.Finishes) : a.Inner := by
  cases a with
  | sent v => exact h.elim
  | gave sight => exact h.elim
  | _ => exact ⟨rfl, rfl⟩

theorem Act.Fails.inner {a : Act} {e : Error} (h : a.Fails e) : a.Inner := by
  cases a with
  | sent v => exact h.elim
  | gave sight => exact h.elim
  | _ => exact ⟨rfl, rfl⟩

theorem settles_of_finishes (past : Past table log s) (allowed : Allowed table s x s₁)
    (h : x.Finishes) :
    ∃ action f token returned exchange, s₁ = .settles action token ∧
      Handles table (log ++ [x]) action f token (.ok returned) exchange := by
  cases allowed with
  | @call action f token r =>
    match r with
    | .ok returned =>
      have h : returned.computation? = none := h
      refine ⟨action, f, token, returned, [], ?_, handles_of_called past _⟩
      simp [Stage.onward, Stage.called, h]
  | @drive n action token v r =>
    obtain ⟨f, exchange, handles⟩ := past
    match r with
    | .ok (.completed _) => exact ⟨action, f, token, _, _, rfl, handles.snoc rfl⟩
  | _ => exact h.elim

theorem raises_of_fails {e : Error} (past : Past table log s) (allowed : Allowed table s x s₁)
    (h : x.Fails e) :
    ∃ action f token r exchange, s₁ = .raises e ∧
      Handles table (log ++ [x]) action f token r exchange := by
  cases allowed with
  | @call action f token r =>
    match r with
    | .raised e' =>
      obtain rfl : e' = e := h
      exact ⟨action, f, token, _, [], rfl, handles_of_called past _⟩
  | @drive n action token v r =>
    obtain ⟨f, exchange, handles⟩ := past
    match r with
    | .raised e' =>
      obtain rfl : e' = e := h
      exact ⟨action, f, token, _, _, rfl, handles.snoc rfl⟩
  | _ => exact h.elim

/-! ## What comes next -/

/-- A log can end here: the driver rests, or a part of the run has not come to an end. -/
def Stage.Idle (s : Stage) : Prop := s.Rests ∨ s = .stuck ∨ ∃ v, s = .answered v

theorem Stage.Idle.of_between {phase : Phase} : (Stage.waits phase).Idle := Or.inl (Or.inl ⟨_, rfl⟩)

theorem over_of_follows (follows : Follows table s log s₁) (h : s = .over ∨ ∃ v, s = .returns v)
    (idle : s₁.Idle) : s₁ = .over := by
  induction follows with
  | nil =>
    rcases h with rfl | ⟨v, rfl⟩
    · rfl
    · simp [Stage.Idle, Stage.Rests] at idle
  | cons allowed _ ih =>
    rcases h with rfl | ⟨v, rfl⟩
    · cases allowed
      exact ih (Or.inr ⟨_, rfl⟩) idle
    · cases allowed
      exact ih (Or.inl rfl) idle

theorem over_of_raises {e : Error} (follows : Follows table (.raises e) log s) (idle : s.Idle) :
    s = .over := by
  cases follows with
  | nil => simp [Stage.Idle, Stage.Rests] at idle
  | cons allowed rest =>
    cases allowed with
    | raise => exact over_of_follows rest (Or.inl rfl) idle
    | @convert _ e' stop cause =>
      -- The other error is not the end of an iteration, so it comes out next.
      cases rest with
      | nil => simp [Stage.Idle, Stage.Rests] at idle
      | cons allowed' rest =>
        cases allowed' with
        | raise => exact over_of_follows rest (Or.inl rfl) idle
        | convert stop' => simp [ErrorOf.kind, cause, Cause.kind, Refusal.kind] at stop'

end OneShot.Protocol
