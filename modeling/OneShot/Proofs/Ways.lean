import OneShot.Pool
import OneShot.Proofs.Loop
import OneShot.Proofs.Tables

/-!
# Ways of answering

An entry can be the answer itself, settle its token when it is called, or leave that to a
computation. A new entry takes the place of an old one and answers in another of these ways. What
the new entries need stands beside the world: the tokens of the loop and the computations that are
returned to it.
-/

namespace OneShot

/-- How a new entry answers. What is returned in the end is `result`. -/
inductive Way where
  /-- It resumes with a value, whatever the parameters are. -/
  | resumes (v result : Value)
  /-- It returns a computation that calls the old entry and does not suspend. -/
  | calls (f result : Value)
  /-- It calls the old entry with a token of its own and returns a computation. That runs the one
  that the old entry has returned to its end and settles the token of the loop after that, in the
  way in which the old entry has settled the other one. -/
  | awaits (f result : Value)

/-- The new entries, as values. -/
structure NewWays where
  make : Way → Value
  origin? : Value → Option Way
  origin_make : ∀ way, origin? (make way) = some way
  callable_make : ∀ way, (make way).isCallable = true

def NewWays.methods : NewWays where
  make
    | .resumes v result => .method (.resume 0 (.tuple 0 [v, result])) .unwrap
    | .calls f result => .method (.suspended 0 (.tuple 0 [f, result])) .unwrap
    | .awaits f result => .method (.completed 0 (.tuple 0 [f, result])) .unwrap
  origin?
    | .method (.resume _ (.tuple _ [v, result])) .unwrap => some (.resumes v result)
    | .method (.suspended _ (.tuple _ [f, result])) .unwrap => some (.calls f result)
    | .method (.completed _ (.tuple _ [f, result])) .unwrap => some (.awaits f result)
    | _ => none
  origin_make way := by cases way <;> rfl
  callable_make way := by cases way <;> rfl

namespace Ways

open Dispatch

/-- A token of the loop. -/
inductive Ticket where
  /-- Only the new entries know it. -/
  | own (t : Token)
  /-- An old entry has got this token of the world for it. -/
  | lent (token : Nat)

/-- What the computation of a new entry has to do. -/
inductive Errand where
  | call (f : Value) (parameters : List Value)
  | await (n token : Nat)

/-- A computation that was returned to the loop. -/
inductive Returned where
  | plain (n : Nat)
  | errand (ticket : Nat) (result : Value) (life : Life Errand)

/-- What stands beside the world. -/
structure Desk where
  tickets : Pool Ticket := {}
  returned : Pool Returned := {}

namespace Desk

def setTicket (desk : Desk) (ticket : Nat) (t : Ticket) : Desk :=
  { desk with tickets := desk.tickets.set ticket t }

/-- Makes a pending token for an action. -/
def issue (desk : Desk) (action : Value) : Desk :=
  { desk with tickets := (desk.tickets.add (.own (.pending action desk.tickets.next))).2 }

def keep (desk : Desk) (r : Returned) : Desk :=
  { desk with returned := (desk.returned.add r).2 }

def life (desk : Desk) (i : Nat) : Life Errand :=
  match desk.returned.get? i with
  | some (.errand _ _ life) => life
  | _ => .finished

def setReturned (desk : Desk) (i : Nat) (r : Returned) : Desk :=
  { desk with returned := desk.returned.set i r }

theorem get?_issue (desk : Desk) (action : Value) :
    (desk.issue action).tickets.get? desk.tickets.next =
      some (.own (.pending action desk.tickets.next)) := Pool.get?_next _ _

theorem get?_keep (desk : Desk) (r : Returned) :
    (desk.keep r).returned.get? desk.returned.next = some r := Pool.get?_next _ _

theorem get?_setTicket {desk : Desk} {ticket : Nat} {t : Ticket}
    (h : desk.tickets.get? ticket = some t) (u : Ticket) :
    (desk.setTicket ticket u).tickets.get? ticket = some u := Pool.get?_set_self h u

theorem get?_setReturned {desk : Desk} {i : Nat} {r : Returned}
    (h : desk.returned.get? i = some r) (q : Returned) :
    (desk.setReturned i q).returned.get? i = some q := Pool.get?_set_self h q

@[simp] theorem tickets_setReturned (desk : Desk) (i : Nat) (r : Returned) :
    (desk.setReturned i r).tickets = desk.tickets := rfl

@[simp] theorem tickets_keep (desk : Desk) (r : Returned) :
    (desk.keep r).tickets = desk.tickets := rfl

end Desk

variable {W : Type}

/-- The place of the computation of a new entry. -/
def errandCell (i ticket : Nat) (result : Value) : Cell (W × Desk) (Life Errand) where
  get p := p.2.life i
  set l p := (p.1, p.2.setReturned i (.errand ticket result l))

/-- Keeps a computation that is returned to the loop. It gets a new identity. -/
def keep (r : Returned) : Exec (W × Desk) Value :=
  Exec.alter fun p => (.computation p.2.returned.next, (p.1, p.2.keep r))

section

variable (host : Host W)

/-- The token that an old entry gets for a token of the loop. -/
def lend (ticket : Nat) : Exec (W × Desk) Nat := do
  match ← Exec.read fun p => p.2.tickets.get? ticket with
  | some (.own t) =>
    let token ← (host.issue t.action).beside
    Exec.modify fun p => (p.1, p.2.setTicket ticket (.lent token))
    return token
  | some (.lent token) => return token
  | none => return ticket

def outcome (ticket : Nat) : Exec (W × Desk) (Option Outcome) := do
  match ← Exec.read fun p => p.2.tickets.get? ticket with
  | some (.own t) => return t.outcome
  | some (.lent token) => (host.outcome token).beside
  | none => return none

def settle (ticket : Nat) (o : Outcome) : Exec (W × Desk) Unit := do
  match ← Exec.read fun p => p.2.tickets.get? ticket with
  | some (.own t) =>
    match t.settle? o with
    | some settled => Exec.modify fun p => (p.1, p.2.setTicket ticket (.own settled))
    | none => host.beside.fail (.contract t.action (.str Token.settledTwice))
  | some (.lent token) => (host.settle (.tactics token) o).beside
  | none => return ()

/-- Settles a token of the loop in the way in which another token was settled. -/
def settleAs (token ticket : Nat) : Exec (W × Desk) Unit := do
  match ← (host.outcome token).beside with
  | some o => settle host ticket o
  | none => return ()

/-- What the computation of a new entry does. -/
def advance (ticket : Nat) (result : Value) : Errand → Value → Exec (W × Desk) (Move Errand)
  | .call f parameters, _ => do
    let token ← lend host ticket
    let _ ← (host.call f (parameters ++ [.tactics token])).beside
    return .complete result
  | .await n token, v => do
    match ← (host.drive n v).beside with
    | .suspended x => return .suspend x (.await n token)
    | .completed _ =>
      settleAs host token ticket
      return .complete result

/-- A computation that an old entry returns to the loop is kept as it is. -/
def takeIn (returned : Value) : Exec (W × Desk) Value :=
  match returned.computation? with
  | some n => keep (.plain n)
  | none => return returned

/-- The action that a token of the loop was made for. -/
def actionOf (ticket : Nat) : Exec (W × Desk) Value :=
  Exec.read fun p =>
    match p.2.tickets.get? ticket with
    | some (.own t) => t.action
    | _ => .nil

/-- What a new entry does when it is called. -/
def answer (parameters : List Value) (ticket : Nat) : Way → Exec (W × Desk) Value
  | .resumes v result => do
    settle host ticket (.resume v)
    return result
  | .calls f result => keep (.errand ticket result (.fresh (.call f parameters)))
  | .awaits f result => do
    let token ← (host.issue (← actionOf ticket)).beside
    let returned ← (host.call f (parameters ++ [.tactics token])).beside
    match returned.computation? with
    | some n => keep (.errand ticket result (.fresh (.await n token)))
    | none =>
      settleAs host token ticket
      return returned

/-- The parameters and the token with which the loop calls an entry. -/
def splitToken (arguments : List Value) : Option (List Value × Nat) :=
  match arguments.reverse with
  | .tactics ticket :: parameters => some (parameters.reverse, ticket)
  | _ => none

/-- The services with the new entries. Any other entry gets a token of the world. -/
def services (new : NewWays) : Host (W × Desk) :=
  { host.beside with
    drive := fun i v => do
      match ← Exec.read fun p => p.2.returned.get? i with
      | some (.plain n) => (host.drive n v).beside
      | some (.errand ticket result _) =>
        Life.drive host.beside.mint (errandCell i ticket result) (advance host ticket result) v
      | none => return .completed .nil
    call := fun f arguments => do
      match splitToken arguments with
      | none => takeIn (← (host.call f arguments).beside)
      | some (parameters, ticket) =>
        match new.origin? f with
        | some way => answer host parameters ticket way
        | none =>
          let token ← lend host ticket
          takeIn (← (host.call f (parameters ++ [.tactics token])).beside)
    issue := fun action => Exec.alter fun p => (p.2.tickets.next, (p.1, p.2.issue action))
    outcome := outcome host
    settle := fun v o =>
      match v with
      | .tactics ticket => settle host ticket o
      | v => (host.settle v o).beside }

end

section

variable {host : Host W} {new : NewWays} {w : W} {desk : Desk} {ticket : Nat}

theorem drive_errand (new : NewWays) {i : Nat} {result v u : Value} {life : Life Errand}
    {s : Errand} (returned : desk.returned.get? i = some (.errand ticket result life))
    (entry : life.enters? v = some (s, u)) (w : W) :
    (services host new).drive i v (w, desk) = Life.enter host.beside.mint
      (errandCell i ticket result) (advance host ticket result) s u (w, desk) := by
  have entered : ((errandCell i ticket result).get (w, desk)).enters? v = some (s, u) := by
    show (desk.life i).enters? v = _
    rw [Desk.life, returned]
    exact entry
  refine (Exec.bind_ok (Exec.read_apply _ _)).trans ?_
  rw [returned]
  exact Life.drive_entered entered

theorem keep_apply (r : Returned) (w : W) (desk : Desk) :
    keep r (w, desk) = (.ok (.computation desk.returned.next), (w, desk.keep r)) := rfl

theorem drive_plain (new : NewWays) {i n : Nat}
    (returned : desk.returned.get? i = some (.plain n)) (v : Value) (w : W) :
    (services host new).drive i v (w, desk) = (host.drive n v).beside (w, desk) := by
  refine (Exec.bind_ok (Exec.read_apply _ _)).trans ?_
  rw [returned]

theorem settle_pending {action : Value} {id : Nat} {o : Outcome}
    (own : desk.tickets.get? ticket = some (.own (.pending action id))) :
    settle host ticket o (w, desk) =
      (.ok (), (w, desk.setTicket ticket (.own ⟨action, id, some o⟩))) := by
  rw [settle, Exec.bind_ok (Exec.read_apply _ _), own]
  rfl

theorem splitToken_append (parameters : List Value) (ticket : Nat) :
    splitToken (parameters ++ [.tactics ticket]) = some (parameters, ticket) := by
  simp [splitToken]

theorem call_kept {f : Value} (old : new.origin? f = none) (parameters : List Value) :
    (services host new).call f (parameters ++ [.tactics ticket]) =
      lend host ticket >>= fun token =>
        (host.call f (parameters ++ [.tactics token])).beside >>= takeIn := by
  simp only [services]
  rw [splitToken_append]
  simp only [old]

theorem call_new (way : Way) (parameters : List Value) :
    (services host new).call (new.make way) (parameters ++ [.tactics ticket]) =
      answer host parameters ticket way := by
  simp only [services]
  rw [splitToken_append]
  simp only [new.origin_make]

theorem quiet_services (quiet : ∀ n, host.note n = pure ()) (n : Note) :
    (services host new).note n = pure () := by
  show (host.note n).beside = _
  rw [quiet, Exec.beside_pure]

theorem callHandler_services (quiet : ∀ n, host.note n = pure ()) (entry action : Value)
    (parameters : List Value) (w : W) (desk : Desk) :
    callHandler (services host new) entry action parameters (w, desk) = (do
      let returned ← (services host new).call entry (parameters ++ [.tactics desk.tickets.next])
      afterCall (services host new) action (desk.tickets.next, returned.computation?) :
        Exec (W × Desk) Decision) (w, desk.issue action) := by
  rw [callHandler_parts (quiet_services quiet)]
  rfl

end

/-- The entry that replaces another one. -/
inductive Replaces (host : Host W) (new : NewWays) : Value → Value → Prop where
  | kept {f} (old : new.origin? f = none) : Replaces host new f f
  | resumes {v result} (plain : v.isCallable = false) (nothing : result.computation? = none) :
      Replaces host new v (new.make (.resumes v result))
  | calls {f result} (callable : f.isCallable = true)
      (nothing : ∀ arguments w r w', host.call f arguments w = (.ok r, w') →
        r.computation? = none) :
      Replaces host new f (new.make (.calls f result))
  | awaits {f result} (callable : f.isCallable = true) :
      Replaces host new f (new.make (.awaits f result))

/-- Some entries of a table are replaced. -/
def Replaced (host : Host W) (new : NewWays) (t t' : Table) : Prop :=
  Assoc.Over (Assoc.Over (Replaces host new)) t t'

end Ways

end OneShot
