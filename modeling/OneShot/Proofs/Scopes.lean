import OneShot.Proofs.Questions
import OneShot.Proofs.Stack

/-!
# Environments around a computation

What a drive of a computation comes to when it stands in environments, as a relation that knows
neither tokens nor loops. An environment inside another one answers the same as both in one, where
the inner one is asked first.
-/

namespace OneShot.World.Shadowing

variable {L : Language} {U : Type}

/-- What a drive comes to. If it asks for a key, it does not matter which action does so. -/
inductive Turnout where
  | raised (e : Error)
  | failed (cause : Cause Value)
  | completed (result : Value)
  | forwards (x : Value)
  | asks (key : Value)

/-- What a loop that answers questions makes of the sight of a drive. -/
def turnout : Sight → Turnout
  | .error e => if e.kind = .stopIteration then .failed (.refused .endOfIteration) else .raised e
  | .ok (.completed r) => .completed r
  | .ok (.suspended x) =>
    match question x with
    | .other => .forwards x
    | .refused refusal => .failed (.refused refusal)
    | .key key => .asks key

/-- How drives turn out: the value of the drive, what it finds, what it comes to and what it
leaves. -/
abbrev Behaviour (U : Type) := Value → U → Turnout → U → Prop

/-- Drives a computation until it comes to something else than a question for a known key. -/
inductive Answers (B : Behaviour U) (known : Value → Option Value) :
    Value → U → Turnout → U → Prop where
  | ends {v u o u'} (turns : B v u o u') (unknown : ∀ key, o = .asks key → known key = none) :
      Answers B known v u o u'
  | answered {v u key u₁ a o u'} (asked : B v u (.asks key) u₁) (found : known key = some a)
      (rest : Answers B known a u₁ o u') : Answers B known v u o u'

namespace Answers

variable {B B' : Behaviour U} {f g : Value → Option Value} {v : Value} {u u₁ u' : U} {o : Turnout}

theorem imp (h : Answers B f v u o u') (hB : ∀ v u o u', B v u o u' → B' v u o u') :
    Answers B' f v u o u' := by
  induction h with
  | ends turns unknown => exact .ends (hB _ _ _ _ turns) unknown
  | answered asked found _ ih => exact .answered (hB _ _ _ _ asked) found ih

theorem unanswered : Answers B (fun _ => none) v u o u' ↔ B v u o u' := by
  constructor
  · rintro (⟨turns, -⟩ | ⟨-, ⟨⟩, -⟩)
    exact turns
  · exact fun turns => .ends turns fun _ _ => rfl

theorem inner_asks {key a : Value} (h : Answers B f v u (.asks key) u₁) (found : g key = some a)
    (rest : Answers B (fun key => (f key).or (g key)) a u₁ o u') :
    Answers B (fun key => (f key).or (g key)) v u o u' := by
  generalize asks : Turnout.asks key = asked at h
  induction h with
  | ends turns unknown =>
    subst asks
    exact .answered turns (by rw [unknown key rfl, Option.none_or, found]) rest
  | answered own found' _ ih =>
    exact .answered own (by rw [found', Option.some_or]) (ih rest asks)

theorem inner_ends (h : Answers B f v u o u') (unknown : ∀ key, o = .asks key → g key = none) :
    Answers B (fun key => (f key).or (g key)) v u o u' := by
  induction h with
  | ends turns unknown' =>
    refine .ends turns fun key asks => ?_
    rw [unknown' key asks, unknown key asks, Option.none_or]
  | answered own found _ ih => exact .answered own (by rw [found, Option.some_or]) (ih unknown)

theorem inner_answers {key a : Value} (own : B v u (.asks key) u₁) (found : f key = some a)
    (rest : Answers (Answers B f) g a u₁ o u') : Answers (Answers B f) g v u o u' := by
  cases rest with
  | ends turns unknown => exact .ends (.answered own found turns) unknown
  | answered asked found' rest => exact .answered (.answered own found asked) found' rest

/-- An environment inside another one is both in one. -/
theorem within_iff :
    Answers (Answers B f) g v u o u' ↔ Answers B (fun key => (f key).or (g key)) v u o u' := by
  constructor
  · intro h
    induction h with
    | ends turns unknown => exact inner_ends turns unknown
    | answered asked found _ ih => exact inner_asks asked found ih
  · intro h
    induction h with
    | ends turns unknown =>
      refine .ends (.ends turns fun key asks => ?_) fun key asks => ?_
      · exact (Option.or_eq_none_iff.mp (unknown key asks)).1
      · exact (Option.or_eq_none_iff.mp (unknown key asks)).2
    | @answered v u key u₁ a o u' asked found _ ih =>
      rcases Option.or_eq_some_iff.mp found with found | ⟨missing, found⟩
      · exact inner_answers asked found ih
      · refine .answered (.ends asked fun key' asks => ?_) found ih
        cases asks
        exact missing

end Answers

/-! ## Scopes -/

/-- What becomes of what the environment does not answer. -/
def Scope.leaves (s : Scope) : Turnout → Turnout
  | .asks key => if s.isLocal then .asks key else .failed (.missingKey key)
  | o => o

/-- The behaviour of a computation in scopes, the outermost first. -/
def behaviour (c : Source U) : List Scope → Behaviour U
  | [] => fun v u o u' => ∃ sight, c v u = (.of sight, u') ∧ turnout sight = o
  | s :: scopes => fun v u o u' => ∃ o₁,
    Answers (behaviour c scopes) s.entries.get? v u o₁ u' ∧ s.leaves o₁ = o

/-- The scopes of overrides, which are local. -/
def locals (overrides : List (Nat × Assoc Value)) : List Scope :=
  overrides.map fun o => ⟨o.1, true, o.2⟩

/-- What overrides have for a key. The innermost ones come first. -/
def overridden : List (Nat × Assoc Value) → Value → Option Value
  | [], _ => none
  | o :: overrides, key => (overridden overrides key).or (o.2.get? key)

theorem behaviour_locals (c : Source U) (overrides : List (Nat × Assoc Value)) {v : Value}
    {u u' : U} {o : Turnout} :
    behaviour c (locals overrides) v u o u' ↔
      Answers (behaviour c []) (overridden overrides) v u o u' := by
  induction overrides generalizing v u o u' with
  | nil => exact Answers.unanswered.symm
  | cons own overrides ih =>
    have leaves (o : Turnout) : (Scope.mk own.1 true own.2).leaves o = o := by
      cases o <;> rfl
    have step : behaviour c (locals (own :: overrides)) v u o u' ↔
        Answers (behaviour c (locals overrides)) own.2.get? v u o u' := by
      simp only [locals, List.map_cons, behaviour, leaves, exists_eq_right]
    rw [step]
    refine Iff.trans ⟨fun h => ?_, fun h => ?_⟩ Answers.within_iff
    · exact h.imp fun _ _ _ _ => ih.mp
    · exact h.imp fun _ _ _ _ => ih.mpr

theorem get?_updated {env : Assoc Value} (exact : ∀ e ∈ env, e.1.Exact)
    {overrides : List (Nat × Assoc Value)} (regular : ∀ o ∈ overrides, o.2.Regular) (key : Value) :
    (overrides.foldl (fun m o => m.update o.2) env).get? key =
      (overridden overrides key).or (env.get? key) := by
  induction overrides generalizing env with
  | nil => exact Option.none_or.symm
  | cons own overrides ih =>
    obtain ⟨first, regular⟩ := List.forall_mem_cons.mp regular
    rw [List.foldl_cons, ih (Assoc.exact_update exact first.exact) regular,
      Assoc.get?_update exact first, overridden, Option.or_assoc]

/-- Overrides inside an environment behave as the environment that is updated with them. -/
theorem behaviour_updated (c : Source U) {env : Assoc Value} (exact : ∀ e ∈ env, e.1.Exact)
    {overrides : List (Nat × Assoc Value)} (regular : ∀ o ∈ overrides, o.2.Regular) (id id' : Nat)
    {v : Value} {u u' : U} {o : Turnout} :
    behaviour c (⟨id, false, env⟩ :: locals overrides) v u o u' ↔
      behaviour c [⟨id', false, overrides.foldl (fun m o => m.update o.2) env⟩] v u o u' := by
  have known : (overrides.foldl (fun m o => m.update o.2) env).get? =
      fun key => (overridden overrides key).or (env.get? key) :=
    funext (get?_updated exact regular)
  have answers {o₁ : Turnout} :
      Answers (behaviour c (locals overrides)) env.get? v u o₁ u' ↔ Answers (behaviour c [])
        (overrides.foldl (fun m o => m.update o.2) env).get? v u o₁ u' := by
    rw [known, ← Answers.within_iff]
    constructor
    · exact fun h => h.imp fun _ _ _ _ => (behaviour_locals c overrides).mp
    · exact fun h => h.imp fun _ _ _ _ => (behaviour_locals c overrides).mpr
  have same (o₁ : Turnout) : (Scope.mk id false env).leaves o₁ =
      (Scope.mk id' false (overrides.foldl (fun m o => m.update o.2) env)).leaves o₁ := by
    cases o₁ <;> rfl
  constructor
  · rintro ⟨o₁, h, rfl⟩
    exact ⟨o₁, answers.mp h, (same o₁).symm⟩
  · rintro ⟨o₁, h, rfl⟩
    exact ⟨o₁, answers.mpr h, same o₁⟩

end OneShot.World.Shadowing
