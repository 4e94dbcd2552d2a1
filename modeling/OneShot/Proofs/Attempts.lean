import OneShot.Kernel

/-!
# Calls on tokens

A program can call the methods of a token at any time. The first call takes the decision of the
token, and every later one is refused.
-/

namespace OneShot

/-- A call of a method of a token, and how it has ended. -/
structure Attempt where
  token : Nat
  outcome : Outcome
  result : Result Value

/-- The method that takes the decision. -/
def Outcome.method : Outcome → Method
  | .resume _ => .resume
  | .abort _ => .abort

/-- The decision of the first call on a token. -/
def firstOutcome (attempts : List Attempt) (token : Nat) : Option Outcome :=
  (attempts.find? fun x => x.token = token).map (·.outcome)

@[simp] theorem firstOutcome_nil (token : Nat) : firstOutcome [] token = none := rfl

@[simp] theorem firstOutcome_append (attempts attempts' : List Attempt) (token : Nat) :
    firstOutcome (attempts ++ attempts') token =
      (firstOutcome attempts token).or (firstOutcome attempts' token) := by
  simp only [firstOutcome, List.find?_append, Option.map_or]

theorem firstOutcome_self (token : Nat) (o : Outcome) (r : Result Value) :
    firstOutcome [⟨token, o, r⟩] token = some o := by
  simp [firstOutcome]

theorem firstOutcome_of_ne {token other : Nat} (h : other ≠ token) (o : Outcome)
    (r : Result Value) : firstOutcome [⟨token, o, r⟩] other = none := by
  simp [firstOutcome, h.symm]

/-- A token that is still for its action and has kept its decision. -/
structure Token.Later (t t' : Token) : Prop where
  action : t'.action = t.action
  outcome : ∀ o, t.outcome = some o → t'.outcome = some o

theorem Token.Later.refl (t : Token) : t.Later t := ⟨rfl, fun _ h => h⟩

theorem Token.Later.trans {t t₁ t₂ : Token} (h : t.Later t₁) (h' : t₁.Later t₂) : t.Later t₂ :=
  ⟨h'.action.trans h.action, fun o decided => h'.outcome o (h.outcome o decided)⟩

/-- How a call ends on a token that had the given decision. The token is as it is some time
later. -/
def Attempt.Answered (x : Attempt) (t : Token) : Option Outcome → Prop
  | none => x.result = .ok .nil ∧ t.outcome = some x.outcome
  | some o => t.outcome = some o ∧
      ∃ e, x.result = .raised e ∧ e.cause = .contract t.action (.str Token.settledTwice)

theorem Attempt.Answered.later {x : Attempt} {t t' : Token} {o : Option Outcome}
    (h : x.Answered t o) (later : t.Later t') : x.Answered t' o := by
  cases o with
  | none => exact ⟨h.1, later.outcome _ h.2⟩
  | some o =>
    obtain ⟨decided, e, raised, cause⟩ := h
    exact ⟨later.outcome o decided, e, raised, later.action ▸ cause⟩

namespace World

variable {L : Language} {w w₁ w₂ w' : World L} {attempts attempts' : List Attempt} {token : Nat}
  {t t' : Token} {o : Outcome} {r : Result Value}

/-- Calls the method of a token that takes the decision. -/
def attempt (token : Nat) (o : Outcome) : Exec (World L) Value :=
  callMethod (.tactics token) o.method [o.value]

theorem attempt_eq (token : Nat) (o : Outcome) :
    attempt (L := L) token o = quietly (settleToken token o) := by
  cases o <;> rfl

/-! ## One call -/

theorem attempt_pending (known : w.tokens.get? token = some t) (pending : t.outcome = none) :
    attempt token o w =
      (.ok .nil, { w with tokens := w.tokens.set token { t with outcome := some o } }) := by
  have settles : t.settle? o = some { t with outcome := some o } := by
    simp only [Token.settle?, pending]
  rw [attempt_eq]
  simp only [quietly, settleToken, Exec.read, Exec.modify, Bind.bind, Exec.bind, known, settles]
  rfl

theorem attempt_settled {o' : Outcome} (known : w.tokens.get? token = some t)
    (settled : t.outcome = some o') :
    ∃ e, e.cause = .contract t.action (.str Token.settledTwice) ∧
      attempt token o w = (.raised e, { w with nextId := w.nextId + 1 }) := by
  have refuses : t.settle? o = none := by simp only [Token.settle?, settled]
  let cause : Cause Value := .contract t.action (.str Token.settledTwice)
  refine ⟨⟨w.nextId, cause, w.argumentOf cause⟩, rfl, ?_⟩
  rw [attempt_eq]
  simp only [quietly, settleToken, Exec.read, Bind.bind, Exec.bind, known, refuses]
  rfl

theorem attempt_unknown (unknown : w.tokens.get? token = none) :
    attempt token o w = (.ok .nil, w) := by
  rw [attempt_eq]
  simp only [quietly, settleToken, Exec.read, Bind.bind, Exec.bind, unknown]
  rfl

/-- A call changes its own token at most. It drives nothing. -/
structure Aside (token : Nat) (w w' : World L) : Prop where
  others : ∀ other ≠ token, w'.tokens.get? other = w.tokens.get? other
  computations : w'.computations = w.computations
  drives : w'.drives = w.drives

theorem aside_attempt (token : Nat) (o : Outcome) (w : World L) :
    Aside token w (attempt token o w).2 := by
  cases known : w.tokens.get? token with
  | none =>
    rw [attempt_unknown known]
    exact ⟨fun _ _ => rfl, rfl, rfl⟩
  | some t =>
    cases decided : t.outcome with
    | none =>
      rw [attempt_pending known decided]
      exact ⟨fun other h => w.tokens.get?_set_of_ne _ h.symm, rfl, rfl⟩
    | some o' =>
      obtain ⟨e, -, run⟩ := attempt_settled (o := o) known decided
      rw [run]
      exact ⟨fun _ _ => rfl, rfl, rfl⟩

theorem attempt_answers (known : w.tokens.get? token = some t)
    (run : attempt token o w = (r, w')) :
    ∃ t', w'.tokens.get? token = some t' ∧ t.Later t' ∧ t'.outcome = t.outcome.or (some o) ∧
      Attempt.Answered ⟨token, o, r⟩ t' t.outcome := by
  cases decided : t.outcome with
  | none =>
    obtain ⟨rfl, rfl⟩ := Prod.mk.inj ((attempt_pending known decided).symm.trans run)
    refine ⟨_, Pool.get?_set_self known _, ⟨rfl, ?_⟩, rfl, rfl, rfl⟩
    intro o' h
    rw [decided] at h
    cases h
  | some o' =>
    obtain ⟨e, cause, ends⟩ := attempt_settled (o := o) known decided
    obtain ⟨rfl, rfl⟩ := Prod.mk.inj (ends.symm.trans run)
    exact ⟨t, known, .refl t, decided, decided, e, rfl, cause⟩

/-! ## Histories -/

/-- The tokens are as they were, and new ones are pending. -/
structure TokensKept (w w' : World L) : Prop where
  kept : ∀ {token t}, w.tokens.get? token = some t → w'.tokens.get? token = some t
  pending : ∀ {token t}, w.tokens.get? token = none → w'.tokens.get? token = some t →
    t.outcome = none

theorem tokensKept_of_eq (h : w'.tokens = w.tokens) : TokensKept w w' where
  kept known := h ▸ known
  pending unknown known := by
    rw [h, unknown] at known
    cases known

theorem tokensKept_issue (action : Value) (w : World L) : TokensKept w (issue action w).2 := by
  have tokens : (issue action w).2.tokens = (w.tokens.add (.pending action w.nextId)).2 := rfl
  refine ⟨?_, ?_⟩
  · intro token t known
    have old : token < w.tokens.next := (Array.getElem?_eq_some_iff.mp known).1
    rw [tokens, w.tokens.get?_add_of_lt _ old]
    exact known
  · intro token t unknown known
    have new : w.tokens.next ≤ token := Array.getElem?_eq_none_iff.mp unknown
    rw [tokens] at known
    have last : token = w.tokens.next := by
      have bound := (Array.getElem?_eq_some_iff.mp known).1
      simp only [Pool.add, Array.size_push] at bound
      exact Nat.le_antisymm (Nat.lt_succ_iff.mp bound) new
    rw [last, ← show (w.tokens.add (.pending action w.nextId)).1 = w.tokens.next from rfl,
      Pool.get?_add] at known
    rw [← Option.some.inj known]
    rfl

/-- A program calls methods of tokens, and in between it does what does not concern them. -/
inductive History (w : World L) : List Attempt → World L → Prop where
  | start : History w [] w
  | other {made : List Attempt} {u v : World L} (before : History w made u)
      (kept : TokensKept u v) : History w made v
  | call {made : List Attempt} {u v : World L} {token : Nat} {t : Token} {o : Outcome}
      {r : Result Value} (before : History w made u) (known : u.tokens.get? token = some t)
      (run : attempt token o u = (r, v)) : History w (made ++ [⟨token, o, r⟩]) v

theorem History.trans (h : History w attempts w₁) (h' : History w₁ attempts' w₂) :
    History w (attempts ++ attempts') w₂ := by
  induction h' with
  | start =>
    rw [List.append_nil]
    exact h
  | other _ kept ih => exact .other ih kept
  | call _ known run ih =>
    rw [← List.append_assoc]
    exact .call ih known run

/-- The decision of a token after some calls. -/
def settledBy (w : World L) (attempts : List Attempt) (token : Nat) : Option Outcome :=
  ((w.tokens.get? token).bind (·.outcome)).or (firstOutcome attempts token)

/-- What calls on tokens have done. -/
structure WriteOnce (w : World L) (attempts : List Attempt) (w' : World L) : Prop where
  /-- No token goes away, and none is used for another action. A decision stays. -/
  later : ∀ {token t}, w.tokens.get? token = some t →
    ∃ t', w'.tokens.get? token = some t' ∧ t.Later t'
  /-- The first call takes the decision. -/
  outcome : ∀ {token t}, w'.tokens.get? token = some t → t.outcome = settledBy w attempts token
  /-- Each call was answered by what had been decided before it. -/
  answers : ∀ {before x after}, attempts = before ++ x :: after →
    ∃ t, w'.tokens.get? x.token = some t ∧ x.Answered t (settledBy w before x.token)

theorem WriteOnce.start (w : World L) : WriteOnce w [] w where
  later known := ⟨_, known, .refl _⟩
  outcome known := by simp [settledBy, known]
  answers h := by simp at h

theorem WriteOnce.known (h : WriteOnce w attempts w') {x : Attempt} (hx : x ∈ attempts) :
    ∃ t, w'.tokens.get? x.token = some t := by
  obtain ⟨before, after, rfl⟩ := List.append_of_mem hx
  obtain ⟨t, known, -⟩ := h.answers rfl
  exact ⟨t, known⟩

theorem WriteOnce.undecided (h : WriteOnce w attempts w') (unknown : w'.tokens.get? token = none) :
    settledBy w attempts token = none := by
  have new : w.tokens.get? token = none := by
    cases old : w.tokens.get? token with
    | none => rfl
    | some t =>
      obtain ⟨t', known, -⟩ := h.later old
      rw [unknown] at known
      cases known
  have uncalled : firstOutcome attempts token = none := by
    simp only [firstOutcome, Option.map_eq_none_iff, List.find?_eq_none, decide_eq_true_eq]
    rintro x hx rfl
    obtain ⟨t, known⟩ := h.known hx
    rw [unknown] at known
    cases known
  simp only [settledBy, new, uncalled, Option.bind_none, Option.or_none]

theorem WriteOnce.other (h : WriteOnce w attempts w₁) (kept : TokensKept w₁ w₂) :
    WriteOnce w attempts w₂ where
  later known := by
    obtain ⟨t, known, later⟩ := h.later known
    exact ⟨t, kept.kept known, later⟩
  outcome {token t} known := by
    cases old : w₁.tokens.get? token with
    | some t₁ =>
      obtain rfl : t₁ = t := Option.some.inj ((kept.kept old).symm.trans known)
      exact h.outcome old
    | none =>
      -- The token is new, so no call can have been made on it.
      rw [kept.pending old known, h.undecided old]
  answers hx := by
    obtain ⟨t, known, answered⟩ := h.answers hx
    exact ⟨t, kept.kept known, answered⟩

theorem WriteOnce.call (h : WriteOnce w attempts w₁) (known : w₁.tokens.get? token = some t)
    (run : attempt token o w₁ = (r, w₂)) : WriteOnce w (attempts ++ [⟨token, o, r⟩]) w₂ := by
  obtain ⟨t', known', later, outcome, answered⟩ := attempt_answers known run
  have aside : Aside token w₁ w₂ := by
    have h := aside_attempt token o w₁
    rw [run] at h
    exact h
  have onward {other : Nat} {t₁ : Token} (old : w₁.tokens.get? other = some t₁) :
      ∃ t₂, w₂.tokens.get? other = some t₂ ∧ t₁.Later t₂ := by
    by_cases same : other = token
    · subst same
      obtain rfl : t = t₁ := Option.some.inj (known.symm.trans old)
      exact ⟨t', known', later⟩
    · exact ⟨t₁, (aside.others other same).trans old, .refl t₁⟩
  refine ⟨?_, ?_, ?_⟩
  · intro other t₀ old
    obtain ⟨t₁, old, later₁⟩ := h.later old
    obtain ⟨t₂, new, later₂⟩ := onward old
    exact ⟨t₂, new, later₁.trans later₂⟩
  · intro other t₂ new
    rw [settledBy, firstOutcome_append, ← Option.or_assoc, ← settledBy]
    by_cases same : other = token
    · subst same
      obtain rfl : t' = t₂ := Option.some.inj (known'.symm.trans new)
      rw [outcome, h.outcome known, firstOutcome_self]
    · rw [aside.others other same] at new
      rw [h.outcome new, firstOutcome_of_ne same, Option.or_none]
  · intro before x after hx
    -- The call is the one that was made now, or one of those before it.
    rcases List.eq_nil_or_concat after with rfl | ⟨after, y, rfl⟩
    · obtain ⟨rfl, last⟩ := List.append_inj' hx rfl
      obtain rfl : _ = x := List.singleton_inj.mp last
      rw [← h.outcome known]
      exact ⟨t', known', answered⟩
    · rw [List.concat_eq_append, ← List.cons_append, ← List.append_assoc] at hx
      obtain ⟨rfl, -⟩ := List.append_inj' hx rfl
      obtain ⟨t₁, old, answered⟩ := h.answers rfl
      obtain ⟨t₂, new, later⟩ := onward old
      exact ⟨t₂, new, answered.later later⟩

theorem History.writeOnce (h : History w attempts w') : WriteOnce w attempts w' := by
  induction h with
  | start => exact .start w
  | other _ kept ih => exact ih.other kept
  | call _ known run ih => exact ih.call known run

end World

end OneShot
