import OneShot.Proofs.Alike
import OneShot.Proofs.Programs
import OneShot.Proofs.Tables
import OneShot.Proofs.Ways

/-!
# The ways of answering agree

Whether an entry is the answer, settles its token when it is called or leaves that to a computation,
the loop does the same. The world goes through the same in both runs. Only the desk, which stands
beside it, tells which tokens and computations of the loop stand for those of the world.
-/

namespace OneShot.Ways

open Dispatch

variable {W α β γ δ : Type}

/-! ## Runs that agree -/

/-- How a run in the world alone ends, and how one with the desk beside it: with related results or
with the same error. An error that comes out of the computation of a new entry has passed the edge
of its body. In the other run it has yet to pass the edge of the loop. -/
inductive Agrees (mint : Cause Value → Exec W Error) (A : Desk → α → β → Prop) :
    Result α × W → Result β × (W × Desk) → Prop where
  | ok {a b w desk} (h : A desk a b) : Agrees mint A (.ok a, w) (.ok b, (w, desk))
  | raised {e w desk} : Agrees mint A (.raised e, w) (.raised e, (w, desk))
  | sealed {e e' w w' desk}
      (h : Life.seal mint (.error e : Except Error (Move Errand)) w = (.raised e', w')) :
      Agrees mint A (.raised e, w) (.raised e', (w', desk))
  | exhausted {w desk} : Agrees mint A (.exhausted, w) (.exhausted, (w, desk))

section

variable {mint : Cause Value → Exec W Error} {A : Desk → α → β → Prop} {B : Desk → γ → δ → Prop}

theorem Agrees.imp {A' : Desk → α → β → Prop} {r : Result α × W} {r' : Result β × (W × Desk)}
    (h : Agrees mint A r r') (results : ∀ {desk a b}, A desk a b → A' desk a b) :
    Agrees mint A' r r' := by
  cases h with
  | ok h => exact .ok (results h)
  | raised => exact .raised
  | sealed h => exact .sealed h
  | exhausted => exact .exhausted

theorem Agrees.bind {x : Exec W α} {y : Exec (W × Desk) β} {f : α → Exec W γ}
    {g : β → Exec (W × Desk) δ} {w : W} {p : W × Desk} (h : Agrees mint A (x w) (y p))
    (next : ∀ a b w' desk, A desk a b → Agrees mint B (f a w') (g b (w', desk))) :
    Agrees mint B ((x >>= f) w) ((y >>= g) p) := by
  simp only [Bind.bind, Exec.bind]
  generalize x w = r at h
  generalize y p = r' at h
  cases h with
  | ok h => exact next _ _ _ _ h
  | raised => exact .raised
  | sealed h => exact .sealed h
  | exhausted => exact .exhausted

theorem Agrees.after {B : Desk → α → δ → Prop} {x : Exec W α} {y : Exec (W × Desk) β}
    {g : β → Exec (W × Desk) δ} {w : W} {p : W × Desk} (h : Agrees mint A (x w) (y p))
    (next : ∀ a b w' desk, A desk a b → Agrees mint B (.ok a, w') (g b (w', desk))) :
    Agrees mint B (x w) ((y >>= g) p) := by
  rw [← bind_pure x]
  exact h.bind next

theorem agrees_beside {P : α → Prop} {x : Exec W α} {w : W}
    (results : ∀ a w', x w = (.ok a, w') → P a) (desk : Desk) :
    Agrees mint (fun d a b => a = b ∧ desk = d ∧ P a) (x w) (x.beside (w, desk)) := by
  rw [Exec.beside_apply]
  rcases h : x w with ⟨r, w'⟩
  cases r with
  | ok a => exact .ok ⟨rfl, rfl, results a w' h⟩
  | raised e => exact .raised
  | exhausted => exact .exhausted

theorem agrees_alone (x : Exec W α) (w : W) (desk : Desk) :
    Agrees mint (fun d a b => a = b ∧ desk = d) (x w) (x.beside (w, desk)) :=
  (agrees_beside (P := fun _ => True) (fun _ _ _ => trivial) desk).imp fun h => ⟨h.1, h.2.1⟩

end

/-! ## Phases and decisions -/

/-- A computation and a token of the loop stand for those of the world, when the computation is
driven with the value. -/
inductive Stands (desk : Desk) (n token i ticket : Nat) (v : Value) : Prop where
  | plain (returned : desk.returned.get? i = some (.plain n))
      (lent : desk.tickets.get? ticket = some (.lent token))
  | awaits {result life action id}
      (returned : desk.returned.get? i = some (.errand ticket result life))
      (entry : life.enters? v = some (.await n token, v))
      (own : desk.tickets.get? ticket = some (.own (.pending action id)))

inductive SamePhase (desk : Desk) : Phase → Phase → Prop where
  | start : SamePhase desk .start .start
  | forwarding : SamePhase desk .forwarding .forwarding
  | handlerBody {n token i ticket action} (stands : ∀ v, Stands desk n token i ticket v) :
      SamePhase desk (.handlerBody n action token) (.handlerBody i action ticket)

inductive SameDecision (desk : Desk) : Decision → Decision → Prop where
  | proceed {v} : SameDecision desk (.proceed v) (.proceed v)
  | stop {m m'} (h : Move.Mirrors Eq (SamePhase desk) m m') :
      SameDecision desk (.stop m) (.stop m')

section

variable {host : Host W} {new : NewWays} {w : W} {desk : Desk} {ticket token : Nat}

/-! ## Tokens -/

theorem agrees_lend {action : Value} {id : Nat}
    (own : desk.tickets.get? ticket = some (.own (.pending action id))) :
    Agrees host.mint (fun d token token' =>
        token = token' ∧ d = desk.setTicket ticket (.lent token))
      (host.issue action w) (lend host ticket (w, desk)) := by
  rw [lend, Exec.bind_ok (Exec.read_apply _ _), own]
  refine (agrees_alone _ w desk).after ?_
  rintro token _ w' _ ⟨rfl, rfl⟩
  exact .ok ⟨rfl, rfl⟩

theorem agrees_settleAs {action : Value} {id : Nat}
    (own : desk.tickets.get? ticket = some (.own (.pending action id))) (token : Nat) :
    Agrees host.mint (fun d o _ => ∃ t, d.tickets.get? ticket = some (.own t) ∧ t.outcome = o)
      (host.outcome token w) (settleAs host token ticket (w, desk)) := by
  rw [settleAs]
  refine (agrees_alone _ w desk).after ?_
  rintro o _ w' _ ⟨rfl, rfl⟩
  cases o with
  | none => exact .ok ⟨_, own, rfl⟩
  | some o =>
    show Agrees _ _ _ (settle host ticket o (w', desk))
    rw [settle_pending own]
    exact .ok ⟨_, Desk.get?_setTicket own _, rfl⟩

variable (quiet : ∀ n, host.note n = pure ())

include quiet

theorem agrees_conclusion (action : Value) (o : Option Outcome) (w : W) (desk : Desk) :
    Agrees host.mint SameDecision (conclusion host action o w)
      (conclusion (services host new) action o (w, desk)) := by
  rcases o with _ | ⟨v | v⟩
  · exact (agrees_alone (host.mint _) w desk).bind fun _ _ _ _ h => h.1 ▸ .raised
  · simp only [conclusion, quiet, quiet_services quiet, pure_bind]
    exact .ok .proceed
  · simp only [conclusion, quiet, quiet_services quiet, pure_bind]
    exact .ok (.stop .complete)

theorem agrees_conclude_lent (lent : desk.tickets.get? ticket = some (.lent token))
    (action : Value) :
    Agrees host.mint SameDecision (conclude host action token w)
      (conclude (services host new) action ticket (w, desk)) := by
  have outcomes : Agrees host.mint (fun _ o o' => o = o') (host.outcome token w)
      ((services host new).outcome ticket (w, desk)) := by
    show Agrees _ _ _ (outcome host ticket (w, desk))
    rw [outcome, Exec.bind_ok (Exec.read_apply _ _), lent]
    exact (agrees_alone _ w desk).imp And.left
  rw [conclude_eq, conclude_eq]
  refine outcomes.bind ?_
  rintro o _ w' desk' rfl
  exact agrees_conclusion quiet action o w' desk'

theorem agrees_conclude_own {t : Token} (own : desk.tickets.get? ticket = some (.own t))
    (action : Value) :
    Agrees host.mint SameDecision (conclusion host action t.outcome w)
      (conclude (services host new) action ticket (w, desk)) := by
  have outcomes : (services host new).outcome ticket (w, desk) = (.ok t.outcome, (w, desk)) := by
    show outcome host ticket (w, desk) = _
    rw [outcome, Exec.bind_ok (Exec.read_apply _ _), own]
    rfl
  rw [conclude_eq, Exec.bind_ok outcomes]
  exact agrees_conclusion quiet action t.outcome w desk

theorem agrees_resumes (v : Value) {result : Value} (nothing : result.computation? = none)
    (action : Value) (parameters : List Value) :
    Agrees host.mint SameDecision (.ok (.proceed v), w)
      (callHandler (services host new) (new.make (.resumes v result)) action parameters
        (w, desk)) := by
  have settled : settle host desk.tickets.next (.resume v) (w, desk.issue action) = _ :=
    settle_pending (desk.get?_issue action)
  have own := Desk.get?_setTicket (desk.get?_issue action)
    (.own ⟨action, desk.tickets.next, some (.resume v)⟩)
  have proceeds : conclusion host action (some (.resume v)) w = (.ok (.proceed v), w) := by
    rw [conclusion, quiet]
    rfl
  rw [callHandler_services quiet, call_new, answer, bind_assoc, Exec.bind_ok settled, pure_bind,
    nothing, ← proceeds]
  exact agrees_conclude_own quiet own action

end

/-! ## Computations of new entries -/

theorem seal_sealed {host : Host W} (mints : host.Mints) {S T : Type} {e e' : Error} {w w' : W}
    (h : Life.seal host.mint (.error e : Except Error (Move S)) w = (.raised e', w')) :
    Life.seal host.mint (.error e' : Except Error (Move T)) w' = (.raised e', w') :=
  (Life.seal_again mints h (.error e') w').mp h

section

variable {host : Host W} {w : W} {desk : Desk} {i ticket : Nat} {result : Value}

theorem agrees_drive (new : NewWays) (mints : host.Mints) {A : Desk → α → Move Errand → Prop}
    {x : Exec W α} {life : Life Errand} {s : Errand} {v u : Value}
    (returned : desk.returned.get? i = some (.errand ticket result life))
    (entry : life.enters? v = some (s, u))
    (body : Agrees host.mint A (x w) (advance host ticket result s u
      (w, desk.setReturned i (.errand ticket result (.running s))))) :
    Agrees host.mint
      (fun d a step => ∃ move d', A d' a move ∧ step = move.step ∧
        d = d'.setReturned i (.errand ticket result (Life.after (.ok move))))
      (x w) ((services host new).drive i v (w, desk)) := by
  rw [drive_errand new returned entry]
  generalize run : advance host ticket result s u
    (w, desk.setReturned i (.errand ticket result (.running s))) = ended at body
  generalize x w = alone at body
  cases body with
  | ok h =>
    rw [Life.enter_ended _ (o := .ok _) run]
    exact .ok ⟨_, _, h, rfl, rfl⟩
  | @raised e w₁ d =>
    -- Here the error passes the edge of the body. The loop lets it through as it is later.
    obtain ⟨e', w', sealed, -⟩ := Life.seal_error (S := Errand) mints e w₁
    rw [Life.enter_ended _ (o := .error e) run, seal_beside]
    show Agrees _ _ _ ((Life.seal _ _).beside (w₁, d.setReturned i _))
    rw [Exec.beside_apply, sealed]
    exact .sealed sealed
  | @sealed e e' _ w₁ d h =>
    rw [Life.enter_ended _ (o := .error e') run, seal_beside]
    show Agrees _ _ _ ((Life.seal _ _).beside (w₁, d.setReturned i _))
    rw [Exec.beside_apply, seal_sealed mints h]
    exact .sealed h
  | exhausted =>
    rw [Life.enter_exhausted _ run]
    exact .exhausted

end

/-- Runs a computation until it suspends or the decision of the token is known. -/
def untilDecided (host : Host W) (n token : Nat) (v : Value) :
    Exec W (Value ⊕ Option Outcome) := do
  match ← host.drive n v with
  | .suspended x => return .inl x
  | .completed _ => return .inr (← host.outcome token)

theorem runBody_untilDecided (host : Host W) (n : Nat) (action : Value) (token : Nat) (v : Value) :
    runBody host n action token v = untilDecided host n token v >>= fun
      | .inl x => pure (.stop (.suspend x (.handlerBody n action token)))
      | .inr o => conclusion host action o := by
  simp only [runBody, untilDecided, bind_assoc]
  congr 1
  funext step
  cases step with
  | suspended x => rfl
  | completed _ => rw [conclude_eq, bind_assoc]; rfl

section

variable {host : Host W} {new : NewWays} {w : W} {desk : Desk} {n token i ticket : Nat}
  {result : Value}

/-- What a computation that waits for the one of an old entry has come to. -/
inductive Awaited (desk : Desk) (n token ticket : Nat) (result : Value) (d : Desk) :
    Value ⊕ Option Outcome → Move Errand → Prop where
  | suspended {x} (same : d = desk) :
      Awaited desk n token ticket result d (.inl x) (.suspend x (.await n token))
  | completed {t : Token} (own : d.tickets.get? ticket = some (.own t)) :
      Awaited desk n token ticket result d (.inr t.outcome) (.complete result)

theorem agrees_await {action : Value} {id : Nat}
    (own : desk.tickets.get? ticket = some (.own (.pending action id))) (v : Value) :
    Agrees host.mint (Awaited desk n token ticket result) (untilDecided host n token v w)
      (advance host ticket result (.await n token) v (w, desk)) := by
  refine (agrees_alone (host.drive n v) w desk).bind ?_
  rintro step _ w' _ ⟨rfl, rfl⟩
  cases step with
  | suspended x => exact .ok (.suspended rfl)
  | completed _ =>
    refine (agrees_settleAs own token).bind ?_
    rintro _ _ w' d ⟨t, own, rfl⟩
    exact .ok (.completed own)

variable (quiet : ∀ n, host.note n = pure ()) (mints : host.Mints)

include quiet mints

/-- The loop drives a computation that stands for another one. -/
theorem agrees_runBody {v : Value} (stands : Stands desk n token i ticket v) (action : Value) :
    Agrees host.mint SameDecision (runBody host n action token v w)
      (runBody (services host new) i action ticket v (w, desk)) := by
  cases stands with
  | plain returned lent =>
    have drive : Agrees host.mint (fun d step step' => step = step' ∧ desk = d) (host.drive n v w)
        ((services host new).drive i v (w, desk)) := by
      rw [drive_plain new returned]
      exact agrees_alone _ w desk
    refine drive.bind ?_
    rintro step _ w' _ ⟨rfl, rfl⟩
    cases step with
    | suspended x => exact .ok (.stop (.suspend rfl (.handlerBody fun _ => .plain returned lent)))
    | completed _ => exact agrees_conclude_lent quiet lent action
  -- The new computation goes on with its own body, which waits for the token to be settled.
  | @awaits result life action' id returned entry own =>
    let running := desk.setReturned i (.errand ticket result (.running (.await n token)))
    have pending : running.tickets.get? ticket = some (.own (.pending action' id)) := own
    rw [runBody_untilDecided]
    refine (agrees_drive new mints returned entry (agrees_await pending v)).bind ?_
    rintro decided _ w' _ ⟨_, d, awaited, rfl, rfl⟩
    cases awaited with
    | suspended same =>
      subst same
      have kept := Desk.get?_setReturned (Desk.get?_setReturned returned
        (.errand ticket result (.running (.await n token))))
        (.errand ticket result (.suspended (.await n token)))
      exact .ok (.stop (.suspend rfl (.handlerBody fun v => .awaits kept rfl own)))
    | completed own =>
      have own : (d.setReturned i (.errand ticket result .finished)).tickets.get? ticket =
          some (.own _) := own
      exact agrees_conclude_own quiet own action

/-! ## Entries that are called -/

theorem agrees_kept {f : Value} (old : new.origin? f = none) (action : Value)
    (parameters : List Value) :
    Agrees host.mint SameDecision (callHandler host f action parameters w)
      (callHandler (services host new) f action parameters (w, desk)) := by
  rw [callHandler_services quiet, callHandler_parts quiet, call_kept old]
  simp only [bind_assoc]
  refine (agrees_lend (desk.get?_issue action)).bind ?_
  rintro token _ w₁ _ ⟨rfl, rfl⟩
  have lent := Desk.get?_setTicket (desk.get?_issue action) (.lent token)
  refine (agrees_alone _ _ _).bind ?_
  rintro returned _ w₂ _ ⟨rfl, rfl⟩
  rw [takeIn]
  cases comes : returned.computation? with
  | none =>
    rw [pure_bind, comes]
    exact agrees_conclude_lent quiet lent action
  | some n =>
    rw [Exec.bind_ok (keep_apply _ _ _)]
    rw [← Desk.tickets_keep _ (.plain n)] at lent
    exact agrees_runBody quiet mints (.plain (Desk.get?_keep _ _) lent) action

theorem agrees_calls {f result : Value}
    (nothing : ∀ arguments w r w', host.call f arguments w = (.ok r, w') → r.computation? = none)
    (action : Value) (parameters : List Value) :
    Agrees host.mint SameDecision (callHandler host f action parameters w)
      (callHandler (services host new) (new.make (.calls f result)) action parameters
        (w, desk)) := by
  let errand := Errand.call f parameters
  let begun := (desk.issue action).keep (.errand desk.tickets.next result (.fresh errand))
  let running := begun.setReturned (desk.issue action).returned.next
    (.errand desk.tickets.next result (.running errand))
  have kept : begun.returned.get? (desk.issue action).returned.next =
      some (.errand desk.tickets.next result (.fresh errand)) := Desk.get?_keep _ _
  -- The handler is called when the computation of the new entry is driven.
  have body : Agrees host.mint (fun d r move => r.2 = none ∧ move = .complete result ∧
        d.tickets.get? desk.tickets.next = some (.lent r.1))
      (called host f action parameters w)
      (advance host desk.tickets.next result errand .nil (w, running)) := by
    have pending : running.tickets.get? desk.tickets.next =
        some (.own (.pending action desk.tickets.next)) := desk.get?_issue action
    refine (agrees_lend pending).bind ?_
    rintro token _ w₁ _ ⟨rfl, rfl⟩
    refine (agrees_beside (nothing _ _) _).bind ?_
    rintro returned _ w₂ _ ⟨rfl, rfl, none⟩
    exact .ok ⟨none, rfl, Desk.get?_setTicket pending _⟩
  have drive := agrees_drive new mints kept (Life.enters?_fresh errand .nil) body
  rw [callHandler_services quiet, callHandler_called quiet, call_new, answer,
    Exec.bind_ok (keep_apply _ _ _)]
  refine drive.bind ?_
  rintro ⟨token, _⟩ _ w₁ _ ⟨_, d, ⟨rfl, rfl, lent⟩, rfl, rfl⟩
  rw [← Desk.tickets_setReturned _ _ _] at lent
  exact agrees_conclude_lent quiet lent action

theorem agrees_awaits {f result : Value} (action : Value)
    (parameters : List Value) :
    Agrees host.mint SameDecision (callHandler host f action parameters w)
      (callHandler (services host new) (new.make (.awaits f result)) action parameters
        (w, desk)) := by
  have asked : actionOf desk.tickets.next (w, desk.issue action) =
      (.ok action, (w, desk.issue action)) := by
    rw [actionOf, Exec.read_apply, desk.get?_issue]
    rfl
  rw [callHandler_services quiet, callHandler_parts quiet, call_new, answer]
  simp only [bind_assoc]
  rw [Exec.bind_ok asked]
  refine (agrees_alone _ _ _).bind ?_
  rintro token _ w₁ _ ⟨rfl, rfl⟩
  refine (agrees_alone _ _ _).bind ?_
  rintro returned _ w₂ _ ⟨rfl, rfl⟩
  cases comes : returned.computation? with
  | some n =>
    have pending := desk.get?_issue action
    rw [← Desk.tickets_keep _ (.errand desk.tickets.next result (.fresh (.await n token)))]
      at pending
    rw [Exec.bind_ok (keep_apply _ _ _)]
    exact agrees_runBody quiet mints (.awaits (Desk.get?_keep _ _) rfl pending) action
  | none =>
    have concluded : afterCall host action (token, none) w₂ =
        (host.outcome token >>= conclusion host action) w₂ := rfl
    rw [concluded, bind_assoc]
    refine (agrees_settleAs (desk.get?_issue action) token).bind ?_
    rintro _ _ w₃ d ⟨t, own, rfl⟩
    rw [pure_bind, comes]
    exact agrees_conclude_own quiet own action

end

/-! ## The edge of the loop -/

/-- The worlds are the same, and the loops are in the same phase. -/
def SameLoop (p : W × Life Phase) (q : (W × Desk) × Life Phase) : Prop :=
  p.1 = q.1.1 ∧ Life.Mirrors (SamePhase q.1.2) p.2 q.2

/-- Bodies that agree are left in the same phase. Where one of them has raised an error, it is the
same once it has passed the edge. -/
theorem sameLoop_enter {host : Host W} (mints : host.Mints)
    {body : Phase → Value → Exec W (Move Phase)}
    {body' : Phase → Value → Exec (W × Desk) (Move Phase)} {s s' : Phase} {v : Value} {w : W}
    {desk : Desk} (h : Agrees host.mint (fun desk => Move.Mirrors Eq (SamePhase desk)) (body s v w)
      (body' s' v (w, desk))) (l l' : Life Phase) :
    let entered := Life.enter (fun cause => (host.mint cause).beside) Cell.second
      (fun s v => (body s v).beside) s v (w, l)
    let entered' := Life.enter (fun cause => (host.beside.mint cause).beside) Cell.second
      (fun s v => (body' s v).beside) s' v ((w, desk), l')
    entered.1 = entered'.1 ∧ SameLoop entered.2 entered'.2 := by
  intro entered entered'
  simp only [entered, entered', enter_apply]
  generalize body s v w = r at h
  generalize body' s' v (w, desk) = r' at h
  cases h with
  | ok h => cases h with
    | suspend yields next => exact yields ▸ ⟨rfl, rfl, .suspended next⟩
    | complete => exact ⟨rfl, rfl, .finished⟩
  | raised =>
    dsimp only
    rw [seal_beside]
    exact ⟨rfl, rfl, .finished⟩
  -- The error has passed an edge already on one side, so it stays as it is at this one.
  | @sealed e e' w w' desk h =>
    have first : Life.seal host.mint (.error e : Except Error (Move Phase)) w =
        (.raised e', w') := h
    have again : Life.seal host.mint (.error e' : Except Error (Move Phase)) w' =
        (.raised e', w') := seal_sealed mints h
    dsimp only
    rw [seal_beside]
    rw [Exec.beside_apply, Exec.beside_apply, Exec.beside_apply, first, again]
    exact ⟨rfl, rfl, .finished⟩
  | exhausted => exact ⟨rfl, rfl, .finished⟩

/-! ## The loop -/

/-- What the two tables say to a value. -/
inductive SameClaim (host : Host W) (new : NewWays) : Claim → Claim → Prop where
  | unclaimed : SameClaim host new .unclaimed .unclaimed
  | notKey {name} : SameClaim host new (.notKey name) (.notKey name)
  | entry {f g} (h : Replaces host new f g) : SameClaim host new (.entry f) (.entry g)

theorem Replaced.claim {host : Host W} {new : NewWays} {t t' : Table}
    (replaced : Replaced host new t t') (v : Value) :
    SameClaim host new (t.claim v) (t'.claim v) := by
  cases v with
  | action _ effect operation _ _ =>
    simp only [Table.claim]
    split
    · obtain ⟨none, none'⟩ | ⟨entries, entries', some, some', entry⟩ := replaced.get? effect
      · rw [none, none']
        exact .unclaimed
      · rw [some, some']
        dsimp only
        split
        · obtain ⟨none, none'⟩ | ⟨f, g, some, some', h⟩ := entry.get? operation
          · rw [none, none']
            exact .unclaimed
          · rw [some, some']
            exact .entry h
        · exact .notKey
    · exact .notKey
  | _ => exact .unclaimed

section

variable {host : Host W} {new : NewWays} {t t' : Table} (quiet : ∀ n, host.note n = pure ())
  (mints : host.Mints) (replaced : Replaced host new t t')

include quiet mints replaced

theorem agrees_react (step : Step) (w : W) (desk : Desk) :
    Agrees host.mint SameDecision (react host t step w)
      (react (services host new) t' step (w, desk)) := by
  cases step with
  | completed r => exact .ok (.stop .complete)
  | suspended y =>
    simp only [react, resolve]
    have claims := replaced.claim y
    generalize t.claim y = claim at claims
    generalize t'.claim y = claim' at claims
    -- The two tables claim alike, and where they claim with different entries one stands for the
    -- other.
    cases claims with
    | unclaimed =>
      simp only [quiet, quiet_services quiet, pure_bind]
      exact .ok (.stop (.suspend rfl .forwarding))
    | notKey => exact (agrees_alone (host.mint _) w desk).bind fun _ _ _ _ h => h.1 ▸ .raised
    | entry h =>
      cases h with
      | kept old =>
        dsimp only
        split
        · exact agrees_kept quiet mints old y _
        · simp only [quiet, quiet_services quiet, pure_bind]
          exact .ok .proceed
      | resumes plain nothing =>
        simp only [plain, new.callable_make, quiet, pure_bind]
        exact agrees_resumes quiet _ nothing y _
      | calls callable nothing =>
        simp only [callable, new.callable_make]
        exact agrees_calls quiet mints nothing y _
      | awaits callable =>
        simp only [callable, new.callable_make]
        exact agrees_awaits quiet mints y _

theorem agrees_proceed (c : Source W) (bound : Nat) {desk : Desk} {d d' : Decision}
    (same : SameDecision desk d d') (w : W) :
    Agrees host.mint (fun desk => Move.Mirrors Eq (SamePhase desk)) (proceed host t c bound d w)
      (proceed (services host new) t' c.beside bound d' (w, desk)) := by
  induction bound generalizing d d' w desk with
  | zero =>
    cases same with
    | stop h => exact .ok h
    | proceed => exact .exhausted
  | succ bound ih =>
    cases same with
    | stop h => exact .ok h
    | @proceed v =>
      refine (agrees_alone (c v) w desk).bind ?_
      rintro step _ w₁ _ ⟨rfl, rfl⟩
      refine (agrees_react quiet mints replaced step w₁ desk).bind ?_
      intro d d' w₂ desk' same
      exact ih same w₂

theorem agrees_advance (c : Source W) (bound : Nat) {desk : Desk} {s s' : Phase}
    (same : SamePhase desk s s') (v : Value) (w : W) :
    Agrees host.mint (fun desk => Move.Mirrors Eq (SamePhase desk))
      (Dispatch.advance host t c bound s v w)
      (Dispatch.advance (services host new) t' c.beside bound s' v (w, desk)) := by
  have taken : Agrees host.mint SameDecision (takeUp host s v w)
      (takeUp (services host new) s' v (w, desk)) := by
    cases same with
    | start => exact .ok .proceed
    | forwarding => exact .ok .proceed
    | handlerBody stands => exact agrees_runBody quiet mints (stands v) _
  exact taken.bind fun d d' w' desk' same => agrees_proceed quiet mints replaced c bound same w'

theorem alike_handling (c : Source W) (bound : Nat) (v : Value) :
    Exec.Alike SameLoop (handling host t c bound v)
      (handling (services host new) t' c.beside bound v) := by
  rintro ⟨w, l⟩ ⟨⟨_, desk⟩, l'⟩ ⟨rfl, lives⟩
  have entered {s s' : Phase} {u : Value} (same : SamePhase desk s s')
      (entry : l.enters? v = some (s, u)) (entry' : l'.enters? v = some (s', u)) :
      (handling host t c bound v (w, l)).1 =
        (handling (services host new) t' c.beside bound v ((w, desk), l')).1 ∧
      SameLoop (handling host t c bound v (w, l)).2
        (handling (services host new) t' c.beside bound v ((w, desk), l')).2 := by
    rw [handling, handling, Source.ofBody_entered entry, Source.ofBody_entered entry']
    exact sameLoop_enter mints (agrees_advance quiet mints replaced c bound same u w) l l'
  cases lives with
  | fresh same => exact entered same rfl rfl
  | suspended same => exact entered same rfl rfl
  | @running s s' same =>
    obtain ⟨e, w₁, made, -⟩ := mints (.refused .running) w
    have refused : handling host t c bound v (w, .running s) = (.raised e, (w₁, .running s)) :=
      (Life.drive_running rfl).trans (Exec.bind_ok (Exec.beside_eq.mpr ⟨made, rfl⟩))
    have refused' : handling (services host new) t' c.beside bound v ((w, desk), .running s') =
        (.raised e, ((w₁, desk), .running s')) :=
      (Life.drive_running rfl).trans
        (Exec.bind_ok (Exec.beside_eq.mpr ⟨Exec.beside_eq.mpr ⟨made, rfl⟩, rfl⟩))
    rw [refused, refused']
    exact ⟨rfl, rfl, .running same⟩
  | finished => exact ⟨rfl, rfl, .finished⟩

end

/-! ## Agreement

The calls of old entries are kept in the world, so that they can be compared. -/

theorem Replaces.recorded {host : Host W} {new : NewWays} {f g : Value}
    (h : Replaces host new f g) : Replaces host.quiet.recorded new f g := by
  cases h with
  | kept old => exact .kept old
  | resumes plain nothing => exact .resumes plain nothing
  | awaits callable => exact .awaits callable
  | calls callable nothing =>
    refine .calls callable ?_
    rintro arguments ⟨w, calls⟩ r ⟨w', calls'⟩ call
    exact nothing arguments w r w' (Exec.beside_eq.mp call).1

theorem Replaced.recorded {host : Host W} {new : NewWays} {t t' : Table}
    (h : Replaced host new t t') : Replaced host.quiet.recorded new t t' :=
  h.imp fun _ _ effect => ⟨effect.1, effect.2.imp fun _ _ entry => ⟨entry.1, entry.2.recorded⟩⟩

/-- The ways of answering agree. In a table, some entries are replaced: a value by an entry that
resumes with it, an entry that returns no computation by one whose computation calls it, and any
other by one that settles its token only after the computation of the old one has ended. Whatever
computation is handled with the table, a driver sees the same, the entries are called with the same
arguments, and the world is left the same. -/
theorem ways_agree {host : Host W} (mints : host.Mints) {new : NewWays} {t t' : Table}
    (replaced : Replaced host new t t') (c : Source (W × List Host.Call)) (w : W) :
    Source.Same (handling host.quiet.recorded t c) Prod.fst ((w, []), .fresh .start)
      (handling (services host.quiet.recorded new) t' c.beside) (fun p => p.1.1)
      (((w, []), {}), .fresh .start) := by
  intro bound driver
  have quiet (n : Note) : host.quiet.recorded.note n = pure () := rfl
  obtain ⟨seen, left, -⟩ := Exec.Alike.session
    (alike_handling quiet mints.quiet.recorded replaced.recorded c bound) driver
    ((w, []), .fresh .start) (((w, []), {}), .fresh .start) ⟨rfl, .fresh .start⟩
  exact ⟨seen, left⟩

/-! Two handlers and a value in a small world. One of the handlers returns a computation. -/

def settling : Host (Option Outcome) :=
  { Host.small (.int 0) with
    call := fun f arguments => do
      Exec.modify fun _ => some (.resume (.int arguments.length))
      match f with
      | .function 0 => return .nil
      | _ => return .computation 0 }

def answers (x y z : Value) : Table :=
  [(.str "a", [(.str "x", x), (.str "y", y), (.str "z", z)])]

/-- Yields the three actions one after the other and completes with the last answer. -/
def asker : Source (Option Outcome × List Host.Call)
  | .nil => pure (.suspended (.action 0 (.str "a") (.str "x") 0 []))
  | .int 7 => pure (.suspended (.action 0 (.str "a") (.str "y") 0 []))
  | .int 1 => pure (.suspended (.action 0 (.str "a") (.str "z") 0 [.nil]))
  | v => pure (.completed v)

theorem ways_agree_settling :
    let make := NewWays.methods.make
    let t := answers (.int 7) (.function 0) (.function 1)
    let t' := answers (make (.resumes (.int 7) .nil)) (make (.calls (.function 0) (.int 3)))
      (make (.awaits (.function 1) .nil))
    let new := handling (services settling.quiet.recorded NewWays.methods) t' asker.beside 9
    let start := (((none, []), {}), Life.fresh Phase.start)
    (∀ driver, (session (handling settling.quiet.recorded t asker 9) driver
      ((none, []), .fresh .start)).1 = (session new driver start).1) ∧
    (session new [.nil, .bool true] start).1 =
      .ok [.ok (.suspended (.int 0)), .ok (.completed (.int 2))] := by
  intro make t t' new start
  have mints : settling.Mints := Host.mints_small (.int 0)
  have nothing (arguments : List Value) (w : Option Outcome) (r : Value) (w' : Option Outcome)
      (call : settling.call (.function 0) arguments w = (.ok r, w')) : r.computation? = none := by
    cases call
    rfl
  have replaced : Replaced settling NewWays.methods t t' :=
    .cons ⟨rfl, .cons ⟨rfl, .resumes rfl rfl⟩ (.cons ⟨rfl, .calls rfl nothing⟩
      (.cons ⟨rfl, .awaits rfl⟩ .nil))⟩ .nil
  have agree (driver : List Value) := (ways_agree mints replaced asker none 9 driver).1
  refine ⟨agree, (agree _).symm.trans ?_⟩
  rfl

end OneShot.Ways
