import OneShot.Proofs.StoreCalls

/-!
# Throws

What a dispatch loop that recovers from throws makes of a value. It forwards what is no throw. The
handler of a throw asks the recovering function for a result and ends the handling with it.
-/

namespace OneShot

theorem Table.lookups_of_claim {t : Table} {i u : Nat} {effect operation entry : Value}
    {parameters : List Value}
    (h : t.claim (.action i effect operation u parameters) = .entry entry) :
    ∃ entries, Assoc.get? t effect = some entries ∧ entries.get? operation = some entry := by
  simp only [claim] at h
  split at h
  · split at h
    · cases h
    · rename_i entries found
      refine ⟨entries, found, ?_⟩
      split at h
      · split at h
        · cases h
        · rename_i found'
          rw [found', Claim.entry.inj h]
      · cases h
  · cases h

namespace World.Recovery

open Dispatch (resolve callHandler conclude Decision)
open State (same_str isKey_str refuse_eq settle_kernel new_token)

variable {L : Language}

/-- A table that claims throws alone. -/
def table (id : Nat) (f : Native Value) : Table := singleTable "failure" "throw" (.native id f)

/-- What such a table makes of a value that it does not leave alone. -/
inductive Thrown where
  | error (e : Value)
  /-- A throw with another number of parameters. -/
  | unsuited
  /-- An action with a name that nothing can be looked up under. -/
  | unnamed (name : Value)

def thrown? (x : Value) : Option Thrown :=
  match (singleTable "failure" "throw" .nil).claim x with
  | .unclaimed => none
  | .notKey name => some (.unnamed name)
  | .entry _ =>
    match Dispatch.parametersOf x with
    | [e] => some (.error e)
    | _ => some .unsuited

/-- Recovering from a throw of `e`: the function is called once, with `e`, while the token of the
throw is pending. What it returns is recorded in the token. -/
def recoverWith (call : Value → List Value → Exec (World L) Value) (recover x e : Value) :
    Exec (World L) Value := do
  let token ← issue x
  let a ← call recover [e]
  let _ ← attempt token (.abort a)
  return a

/-- What a handling that recovers completes with. The function is called for a single error only. -/
def respond (call : Value → List Value → Exec (World L) Value) (recover x : Value) :
    Thrown → Exec (World L) Value
  | .error e => recoverWith call recover x e
  | .unsuited => do
    let _ ← issue x
    refuse .unsuited
  | .unnamed name => refuse name.keyRefusal

/-- Called for a throw, the recovering function leaves the token of that alone. It is not given the
token. -/
def Spared (call : Value → List Value → Exec (World L) Value) (recover x e : Value)
    (w : World L) : Prop :=
  (call recover [e] (w.addToken x).2).2.tokens.get? w.tokens.next = some (.pending x w.nextId)

/-! ## Claims -/

theorem claim_table (id : Nat) (f : Native Value) (x : Value) :
    (table id f).claim x =
      match (singleTable "failure" "throw" .nil).claim x with
      | .entry _ => .entry (.native id f)
      | claim => claim :=
  Table.claim_mapContents (fun _ => .native id f) (singleTable "failure" "throw" .nil) x

theorem thrown?_eq_none {x : Value} {id : Nat} {f : Native Value} :
    thrown? x = none ↔ (table id f).claim x = .unclaimed := by
  rw [claim_table]
  unfold thrown?
  split
  · simp only [*]
  · simp only [*, reduceCtorEq]
  · split <;> simp only [*, reduceCtorEq]

theorem claim_of_thrown {x : Value} {t : Thrown} (h : thrown? x = some t) (id : Nat)
    (f : Native Value) :
    match t with
    | .error e => (table id f).claim x = .entry (.native id f) ∧ Dispatch.parametersOf x = [e]
    | .unsuited => (table id f).claim x = .entry (.native id f) ∧
        (Dispatch.parametersOf x).length ≠ 1
    | .unnamed name => (table id f).claim x = .notKey name := by
  rw [claim_table]
  unfold thrown? at h
  split at h
  · cases h
  · obtain rfl := Option.some.inj h
    simp only [*]
  · split at h
    · obtain rfl := Option.some.inj h
      simp only [*, and_self]
    · rename_i others
      obtain rfl := Option.some.inj h
      simp only [*, ne_eq, true_and]
      intro one
      obtain ⟨e, parameters⟩ := List.length_eq_one_iff.mp one
      exact others e parameters

theorem named_of_claim {id : Nat} {f : Native Value} {x entry : Value}
    (h : (table id f).claim x = .entry entry) :
    ∃ i t ps, x = .action i (.str "failure") (.str "throw") t ps := by
  cases x with
  | action i effect operation t ps =>
    obtain ⟨entries, found, found'⟩ := Table.lookups_of_claim h
    obtain ⟨e, he, sameEffect, rfl⟩ := Assoc.get?_eq_of_mem found
    obtain rfl : e = (.str "failure", [(.str "throw", .native id f)]) := by
      simpa [table, singleTable] using he
    obtain ⟨o, ho, sameOperation, -⟩ := Assoc.get?_eq_of_mem found'
    obtain rfl : o = (.str "throw", .native id f) := by simpa using ho
    obtain rfl := (same_str _ _).mp sameEffect
    obtain rfl := (same_str _ _).mp sameOperation
    exact ⟨i, t, ps, rfl⟩
  | _ => cases h

theorem thrown?_eq_error {x e : Value} :
    thrown? x = some (.error e) ↔ ∃ i t, x = .action i (.str "failure") (.str "throw") t [e] := by
  constructor
  · intro h
    obtain ⟨claimed, parameters⟩ := claim_of_thrown h 0 .throwRaise
    obtain ⟨i, t, ps, rfl⟩ := named_of_claim claimed
    obtain rfl : ps = [e] := parameters
    exact ⟨i, t, rfl⟩
  · rintro ⟨i, t, rfl⟩
    simp [thrown?, singleTable, Table.claim, Assoc.get?_cons, isKey_str, Value.same,
      Dispatch.parametersOf]

/-! ## What the loop makes of a value -/

section

variable {program : Program L} {steps depth id : Nat} {recover x : Value} {w w' : World L}
  {d : Except Error Decision}

/-- The services that the loop is given. The log is left aside. -/
abbrev services (program : Program L) (steps depth : Nat) : Host (World L) :=
  (kernel program steps (depth + 2)).quiet

theorem conclude_aborted {t : Nat} {token : Token} {v : Value}
    (issued : w.tokens.get? t = some token) (decided : token.outcome = some (.abort v)) :
    conclude (services program steps depth) x t w = (.ok (.stop (.complete v)), w) := by
  have outcome : (services program steps depth).outcome t w = (.ok (some (.abort v)), w) := by
    refine Prod.ext (congrArg Result.ok ?_) rfl
    show (w.tokens.get? t).bind (·.outcome) = _
    rw [issued]
    exact decided
  rw [conclude, Exec.bind_ok outcome]
  rfl

theorem callNative_unsuited (host : Host (World L)) {parameters : List Value}
    (unsuited : parameters.length ≠ 1) (tactics : Value) :
    callNative host (.throwAbort recover) (parameters ++ [tactics]) = refuse .unsuited := by
  rcases parameters with _ | ⟨_, _ | ⟨_, rest⟩⟩
  · rfl
  · exact absurd rfl unsuited
  · cases rest <;> rfl

theorem resolve_error {e : Value} (throws : thrown? x = some (.error e))
    (spared : Spared (kernel program steps (depth + 1)).call recover x e w) :
    resolve (services program steps depth) (table id (.throwAbort recover)) x w =
      (do
        let a ← recoverWith (kernel program steps (depth + 1)).call recover x e
        return Decision.stop (.complete a)) w := by
  obtain ⟨claimed, parameters⟩ := claim_of_thrown throws id (.throwAbort recover)
  have handler : (services program steps depth).call (.native id (.throwAbort recover))
      [e, .tactics w.tokens.next] = quietly (Failure.recoverFrom
        (kernel program steps (depth + 1)) recover e (.tactics w.tokens.next)) := rfl
  have issued : (services program steps depth).issue x w = (.ok w.tokens.next, (w.addToken x).2) :=
    rfl
  have issued' : issue x w = (.ok w.tokens.next, (w.addToken x).2) := rfl
  rw [Dispatch.resolve_call claimed rfl, parameters, callHandler, recoverWith,
    Exec.bind_ok issued, List.singleton_append, handler, quietly, Failure.recoverFrom]
  simp only [bind_assoc]
  rw [Exec.bind_ok issued']
  rcases called : (kernel program steps (depth + 1)).call recover [e] (w.addToken x).2 with ⟨r, w₁⟩
  cases r with
  | ok a =>
    -- The function may do what it likes but for this token, so the abort is the first decision.
    have pending : w₁.tokens.get? w.tokens.next = some (.pending x w.nextId) := by
      rwa [Spared, called] at spared
    have settled := settle_kernel program steps depth pending rfl (.abort a)
    have recorded := attempt_pending (o := .abort a) pending rfl
    have known : (attempt w.tokens.next (.abort a) w₁).2.tokens.get? w.tokens.next =
        some { Token.pending x w.nextId with outcome := some (.abort a) } := by
      rw [recorded]
      exact Pool.get?_set_self pending _
    rw [Exec.bind_ok called, Exec.bind_ok called, Exec.bind_ok settled]
    refine (conclude_aborted known rfl).trans ?_
    rw [Exec.bind_ok recorded, recorded]
    rfl
  | raised error => rw [Exec.bind_raised called, Exec.bind_raised called]
  | exhausted => rw [Exec.bind_exhausted called, Exec.bind_exhausted called]

/-- What is not left alone ends the handling. -/
theorem resolve_thrown {t : Thrown} (throws : thrown? x = some t)
    (spared : ∀ e, t = .error e → Spared (kernel program steps (depth + 1)).call recover x e w) :
    resolve (services program steps depth) (table id (.throwAbort recover)) x w =
      (do
        let a ← respond (kernel program steps (depth + 1)).call recover x t
        return Decision.stop (.complete a)) w := by
  have claimed := claim_of_thrown throws id (.throwAbort recover)
  cases t with
  | error e => exact resolve_error throws (spared e rfl)
  | unnamed name =>
    simp only [resolve, claimed]
    rfl
  | unsuited =>
    obtain ⟨claimed, unsuited⟩ := claimed
    have issued : (services program steps depth).issue x w =
        (.ok w.tokens.next, (w.addToken x).2) := rfl
    obtain ⟨error, -, raised⟩ := refuse_eq (α := Value) .unsuited (w.addToken x).2
    have called : (services program steps depth).call (.native id (.throwAbort recover))
        (Dispatch.parametersOf x ++ [.tactics w.tokens.next]) (w.addToken x).2 = _ :=
      (congrFun (callNative_unsuited _ unsuited _) _).trans raised
    have refused : respond (kernel program steps (depth + 1)).call recover x .unsuited w = _ :=
      raised
    rw [Dispatch.resolve_call claimed rfl, callHandler, Exec.bind_ok issued,
      Exec.bind_raised called, Exec.bind_raised refused]

end

end World.Recovery

end OneShot
