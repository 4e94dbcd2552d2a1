import OneShot.Proofs.Dormancy

/-!
# Errors leave the source alone

An entry, its computation or the loop itself can fail while an action is handled. The error comes
out of everything around the loop. The source waits where it was, and nothing can be driven any more
but the source.
-/

namespace OneShot

open Protocol

/-- An error comes out of the stack. After it no code of the program runs in any drive. -/
structure Breaks {W : Type} (levels : Nat → Source (Stacked W)) (place : Nat) (e : Error)
    (after : Log W) (p : Stacked W) : Prop where
  escapes : Escapes place e after p
  quiet : ∀ m ∈ after, m.act.runsCode = false
  silent : Silent levels place p

/-- The source waits where it has yielded the action, and its body goes on from there when it is
driven with a value. -/
def Untouched {U S : Type} (mint : Cause Value → Exec U Error) (body : S → Value → Exec U (Move S))
    (action : Value) (p : Stacked (U × Life S)) : Prop :=
  ∃ s, LeftAt action s p ∧ ∀ v u sight u' l',
    Source.ofBody mint body v (u, p.1.1.1.2) = (.of sight, (u', l')) ↔
      ∃ o u₁, body s v u = (.of o, u₁) ∧ Life.seal mint o u₁ = (.of sight, u') ∧ l' = Life.left o

theorem untouched_of_left {U S : Type} {mint : Cause Value → Exec U Error}
    {body : S → Value → Exec U (Move S)} {action : Value} {p : Stacked (U × Life S)}
    (left : ∃ s, LeftAt action s p) : Untouched mint body action p := by
  obtain ⟨s, left⟩ := left
  refine ⟨s, left, fun v u sight u' l' => ?_⟩
  rw [left.1, Source.ofBody_entered (Life.enters?_suspended s v)]
  exact enter_eq mint body

theorem World.breaks {L : Language} {S : Type} {drive : Nat → Value → Exec (World L × Life S) Step}
    {call : Value → List Value → Exec (World L × Life S) Value} {table : Table}
    {body : S → Value → Exec (World L) (Move S)} {bound place : Nat} {e : Error}
    {after : Log (World L × Life S)} {p : Stacked (World L × Life S)}
    (escapes : Escapes place e after p) :
    Breaks (World.stack drive call table body bound) place e after p :=
  ⟨escapes, escapes.quiet, World.silent escapes.over.1 escapes.over.2⟩

/-- If an entry raises, or the computation that it returned, or if both have finished and the token
of the action has recorded nothing, the error comes out of the whole stack in the same drive. If the
source itself raises, its error comes out as well. In no case does any code of the program run after
it. A source that has not raised, and that nothing but the loop drives, still waits where it has
yielded the action. -/
theorem errors_leave_source {L : Language} {S : Type}
    (drive : Nat → Value → Exec (World L × Life S) Step)
    (call : Value → List Value → Exec (World L × Life S) Value) (table : Table)
    (body : S → Value → Exec (World L) (Move S)) (start : S) (layers : List Layer) (bound : Nat)
    (turns : List (Turn (World L × Life S))) (places : ∀ t ∈ turns, t.place = layers.length)
    (w : World L) {r : Result (List Sight)} {p : Stacked (World L × Life S)}
    (run : takeTurns (World.stack drive call table body bound) Stacked.change turns
      (.fresh (w, .fresh start) layers) = (r, p))
    {before after : Log (World L × Life S)} {m : Mark (World L × Life S)}
    (hlog : p.log = before ++ m :: after) (lowest : m.place = 0) :
    (∀ e, m.act.Fails e → ∃ action f token r exchange,
      Handles table (Log.actsAt 0 (before ++ [m])) action f token r exchange ∧
      Breaks (World.stack drive call table body bound) layers.length e after p ∧
      (Owned drive call turns → Untouched World.mint body action p)) ∧
    (m.act.Finishes → ∃ action f token returned exchange w' rest,
      Handles table (Log.actsAt 0 (before ++ [m])) action f token (.ok returned) exchange ∧
      after = ⟨0, .read token (World.tokensIn m.world token), w'⟩ :: rest ∧
      ((World.tokensIn m.world token).bind (·.outcome) = none → ∃ e w'' rest',
        rest = ⟨0, .made (.contract action (.str Token.neverSettled)) (.ok e), w''⟩ :: rest' ∧
        e.cause = .contract action (.str Token.neverSettled) ∧
        Breaks (World.stack drive call table body bound) layers.length e rest' p ∧
        (Owned drive call turns → Untouched World.mint body action p))) ∧
    ∀ v e, m.act = .advanced v (.raised e) →
      Breaks (World.stack drive call table body bound) layers.length e after p := by
  have session := World.session places run
  refine ⟨?_, ?_, ?_⟩
  · intro e fails
    obtain ⟨action, f, token, r, exchange, handles, escapes⟩ := session.fails hlog lowest fails
    refine ⟨action, f, token, r, exchange, handles, World.breaks escapes, fun owned => ?_⟩
    have dormant := World.dormant places run owned
    exact untouched_of_left
      (dormant.leftAt (hlog.trans (List.append_cons _ _ _)) handles escapes.quiet)
  · intro finishes
    obtain ⟨action, f, token, returned, exchange, record, w', rest, handles, rfl, onward⟩ :=
      session.finishes hlog lowest finishes
    have hrecord := session.kept.record hlog finishes.inner
    subst hrecord
    refine ⟨action, f, token, returned, exchange, w', rest, handles, rfl, ?_⟩
    intro pending
    -- The loop refuses a token without a decision, and that error escapes like any other one.
    rw [pending] at onward
    obtain ⟨e, w'', rest, rfl, cause, escapes⟩ :=
      onward.refuses (session.leads hlog).tail rfl ⟨rfl, rfl⟩
    refine ⟨e, w'', rest, rfl, cause, World.breaks escapes, fun owned => untouched_of_left ?_⟩
    refine (World.dormant places run owned).leftAt (hlog.trans (List.append_cons _ _ _)) handles ?_
    exact List.forall_mem_cons.mpr ⟨rfl, List.forall_mem_cons.mpr ⟨rfl, escapes.quiet⟩⟩
  · intro v e hact
    exact World.breaks (session.breaks hlog lowest hact)

def Small.error : Error := ⟨0, .noEntry .nil, none⟩

def Small.failing {W : Type} (_ : Nat) (_ : Value) : Exec W Step := Exec.raise Small.error

theorem errors_leave_source_small :
    ∃ action rest, Untouched World.mint Small.body action (Small.session Small.failing []).2 ∧
      Breaks (World.stack Small.failing (fun f arguments => (Small.call [] 0 f arguments).beside)
        Small.table Small.body 9) 4 Small.error rest (Small.session Small.failing []).2 := by
  have hlog := Log.split_at (Small.session Small.failing []).2.log 8 (by decide)
  obtain ⟨fails, -⟩ :=
    errors_leave_source Small.failing (fun f arguments => (Small.call [] 0 f arguments).beside)
      Small.table Small.body false Small.layers 9 Small.turns (by decide) { memory := () }
      (Prod.eta _).symm hlog rfl
  obtain ⟨action, f, token, r, exchange, -, breaks, untouched⟩ := fails Small.error rfl
  have owned := untouched ⟨fun _ _ _ => rfl, fun _ _ _ => rfl, by simp [Small.turns]⟩
  exact ⟨action, _, owned, breaks⟩

end OneShot
