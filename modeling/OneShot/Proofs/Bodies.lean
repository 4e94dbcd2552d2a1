import OneShot.Proofs.Dormancy

/-!
# Computations of entries run opaquely

From the call of an entry that returns a computation to the end of that computation, the loop hands
its suspensions to the driver and the values of the driver to it. Only then does the token decide.
-/

namespace OneShot

open Protocol
open Dispatch (Phase handling parametersOf)

namespace Protocol

/-- What follows the call of an entry that has returned a computation, beginning with the drive of
that computation with a value. -/
inductive Exchange (table : Table) (n : Nat) (action : Value) (token : Nat) :
    Value → List Act → Prop where
  /-- This drive does not come to an end. -/
  | stuck {v} : Exchange table n action token v [.drove n v .exhausted]
  /-- The driver sends nothing more. -/
  | left {v x} : Exchange table n action token v
      [.drove n v (.ok (.suspended x)), .gave (.ok (.suspended x))]
  | yields {v x u acts} (rest : Exchange table n action token u acts) :
      Exchange table n action token v
        (.drove n v (.ok (.suspended x)) :: .gave (.ok (.suspended x)) :: .sent u :: acts)
  /-- The result of the computation is dropped. -/
  | completes {v result record acts s}
      (rest : Follows table (.concluded action (record.bind (·.outcome))) acts s) (idle : s.Idle) :
      Exchange table n action token v
        (.drove n v (.ok (.completed result)) :: .read token record :: acts)
  | raises {v e acts s} (rest : Follows table (.raises e) acts s) (idle : s.Idle) :
      Exchange table n action token v (.drove n v (.raised e) :: acts)

theorem exchange_of_follows {table : Table} {n token : Nat} {action v : Value} {acts : List Act}
    {s : Stage} (follows : Follows table (.runs n action token v) acts s) (idle : s.Idle) :
    Exchange table n action token v acts := by
  -- A round of the exchange takes three acts, so the induction is on the number of acts.
  induction h : acts.length using Nat.strong_induction_on generalizing v acts with
  | _ length ih =>
    cases follows with
    | nil => simp [Stage.Idle, Stage.Rests] at idle
    | @cons _ _ s₁ acts _ allowed follows =>
      cases allowed with
      | @drive _ _ _ _ r =>
        cases r with
        | exhausted =>
          cases follows with
          | nil => exact .stuck
          | cons allowed _ => cases allowed
        | raised e => exact .raises follows idle
        | ok step =>
          cases follows with
          | nil => cases step <;> simp [Stage.onward, Stage.drove, Stage.Idle, Stage.Rests] at idle
          | cons allowed follows =>
            cases step with
            | completed result =>
              cases allowed with
              | conclude => exact .completes follows idle
            | suspended x =>
              cases allowed with
              | suspend =>
                cases follows with
                | nil => exact .left
                | @cons _ _ _ acts _ allowed follows =>
                  cases allowed with
                  | take =>
                    refine .yields (ih acts.length ?_ follows rfl)
                    rw [← h]
                    simp only [List.length_cons]
                    omega

end Protocol

/-- A suspension of the computation is one of the loop. Neither the table nor the source matters. -/
theorem handling_suspends {W : Type} {host : Host W} {n token : Nat} {action v x : Value} {w w' : W}
    (h : host.drive n v w = (.ok (.suspended x), w')) (table : Table) (c : Source W) (bound : Nat) :
    handling host table c bound v (w, .suspended (.handlerBody n action token)) =
      (.ok (.suspended x), (w', .suspended (.handlerBody n action token))) := by
  have advances : Dispatch.advance host table c bound (.handlerBody n action token) v w =
      (.ok (.suspend x (.handlerBody n action token)), w') := by
    simp only [Dispatch.advance, Dispatch.takeUp, Dispatch.runBody, bind_assoc]
    rw [Exec.bind_ok h]
    cases bound <;> rfl
  rw [handling, Source.ofBody_entered (Life.enters?_suspended _ v), enter_apply, advances]
  rfl

/-- When an entry returns a computation, all that follows is the exchange between that and the
driver, until it ends. When it has ended, or when an entry returns anything else, the token is read
at once, and its record is what the token holds. Nothing is driven but a computation that the entry
of the action at hand has returned. A computation that suspends makes the loop suspend with the same
value, whatever the table and the source are. -/
theorem bodies_run_opaquely {L : Language} (drive : Nat → Value → Exec (World L) Step)
    (call : Value → List Value → Exec (World L) Value) (table : Table) (c : Source (World L))
    (layers : List Layer) (bound : Nat) (turns : List (Turn (World L)))
    (places : ∀ t ∈ turns, t.place = layers.length) (w : World L) {r : Result (List Sight)}
    {p : Stacked (World L)}
    (run : takeTurns (stack (World.host drive call) (fun w => w.tokens.get?) table c bound)
      Stacked.change turns (.fresh w layers) = (r, p)) :
    (∀ {before after : Log (World L)} {m : Mark (World L)} {f arguments n},
      p.log = before ++ m :: after → m.place = 0 →
      m.act = .called f arguments (.ok (.computation n)) → ∃ action token,
        Handles table (Log.actsAt 0 (before ++ [m])) action f token (.ok (.computation n)) [] ∧
        Exchange table n action token .nil (Log.actsAt 0 after)) ∧
    (∀ {before after : Log (World L)} {m : Mark (World L)}, p.log = before ++ m :: after →
      m.place = 0 → m.act.Finishes → ∃ action f token returned exchange w' rest,
        Handles table (Log.actsAt 0 (before ++ [m])) action f token (.ok returned) exchange ∧
        after = ⟨0, .read token (m.world.tokens.get? token), w'⟩ :: rest) ∧
    (∀ {before after : Log (World L)} {m : Mark (World L)} {n v r},
      p.log = before ++ m :: after → m.place = 0 → m.act = .drove n v r →
      ∃ action f token exchange, Handles table (Log.actsAt 0 (before ++ [m])) action f token
        (.ok (.computation n)) exchange) ∧
    ∀ {n action token v x} {w w' : World L}, drive n v w = (.ok (.suspended x), w') →
      ∀ table' c' bound', handling (World.host drive call) table' c' bound' v
        (w, .suspended (.handlerBody n action token)) =
          (.ok (.suspended x), (w', .suspended (.handlerBody n action token))) := by
  have lawful : (World.host drive call).Lawful fun w => w.tokens.get? :=
    World.lawful_host drive call
  have stable : Stable (World.host drive call) (fun w => w.tokens.get?) c
      (Prompt fun w => w.tokens.get?) :=
    stable_prompt c fun n w => congrArg Pool.get? (World.tokens_note n w)
  have session := session_of_run stable lawful places
    (fun t _ w log paused h => h.change paused _) (prompt_start w) run
  refine ⟨?_, ?_, ?_, ?_⟩
  · rintro before after ⟨place, a, w₁⟩ f arguments n hlog lowest hact
    obtain rfl : place = 0 := lowest
    obtain rfl : a = _ := hact
    -- The call is an act at the stage that the log has led to, so the stage tells its action.
    obtain ⟨s₀, s₁, past, allowed, -, s, follows, idle⟩ := session.past hlog rfl ⟨rfl, rfl⟩
    cases allowed with
    | @call action _ token =>
      refine ⟨action, token, ?_, exchange_of_follows follows idle⟩
      rw [Log.actsAt_append]
      exact handles_of_called past _
  · intro before after m hlog lowest finishes
    obtain ⟨action, f, token, returned, exchange, record, w', rest, handles, rfl, -⟩ :=
      session.finishes hlog lowest finishes
    have hrecord := session.kept.record hlog finishes.inner
    subst hrecord
    exact ⟨action, f, token, returned, exchange, w', rest, handles, rfl⟩
  · rintro before after ⟨place, a, w₁⟩ n v r hlog lowest hact
    obtain rfl : place = 0 := lowest
    obtain rfl : a = _ := hact
    obtain ⟨s₀, s₁, past, allowed, -⟩ := session.past hlog rfl ⟨rfl, rfl⟩
    cases allowed with
    | @drive _ action token =>
      obtain ⟨f, exchange, handles⟩ := past
      rw [Log.actsAt_append]
      exact ⟨action, f, token, _, handles.snoc rfl⟩
  · exact fun h table' c' bound' => handling_suspends h table' c' bound'

/-- A session with a source that yields the same action again and again. -/
def Small.repeated : Result (List Sight) × Stacked (World Small.language) :=
  takeTurns (stack (World.host Small.drive (Small.call [.resume] 1)) (fun w => w.tokens.get?)
    Small.table (fun _ => return .suspended Small.action) 9) Stacked.change Small.turns
    (.fresh { memory := () } Small.layers)

theorem bodies_run_opaquely_small :
    ∃ action token, Exchange Small.table 1 action token .nil
      (Log.actsAt 0 (Small.repeated.2.log.drop 8)) := by
  have hlog := Log.split_at Small.repeated.2.log 7 (by decide)
  obtain ⟨entries, -⟩ :=
    bodies_run_opaquely Small.drive (Small.call [.resume] 1) Small.table
      (fun _ => return .suspended Small.action) Small.layers 9 Small.turns (by decide)
      { memory := () } (Prod.eta _).symm
  obtain ⟨action, token, -, runs⟩ := entries hlog rfl rfl
  exact ⟨action, token, runs⟩

end OneShot
