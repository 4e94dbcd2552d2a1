import OneShot.Proofs.Attempts
import OneShot.Proofs.Dormancy

/-!
# The first call decides

The calls on tokens are kept beside the world. When the entry of an action and its computation have
finished, the loop acts on the first call on the token of that action. It looks at the token once.
-/

namespace OneShot

open Protocol Exec

/-- A world with the calls on its tokens so far. -/
abbrev Recorded (L : Language) := World L × List Attempt

namespace Recorded

variable {L : Language} {α β : Type}

/-- What there is of calls on tokens between two worlds is kept. -/
def Comes (w w' : Recorded L) : Prop := ∃ made, w'.2 = w.2 ++ made ∧ World.History w.1 made w'.1

theorem Comes.refl (w : Recorded L) : Comes w w := ⟨[], (List.append_nil _).symm, .start⟩

theorem Comes.trans {w w₁ w₂ : Recorded L} (h : Comes w w₁) (h' : Comes w₁ w₂) : Comes w w₂ := by
  obtain ⟨made, hmade, history⟩ := h
  obtain ⟨made', hmade', history'⟩ := h'
  exact ⟨made ++ made', by rw [hmade', hmade, List.append_assoc], history.trans history'⟩

theorem comes_of_kept {w w' : World L} (kept : World.TokensKept w w') (attempts : List Attempt) :
    Comes (w, attempts) (w', attempts) :=
  ⟨[], (List.append_nil _).symm, .other .start kept⟩

theorem Comes.later {w w' : Recorded L} (h : Comes w w') {token : Nat} {t : Token}
    (known : World.tokensIn w token = some t) :
    ∃ t', World.tokensIn w' token = some t' ∧ t.Later t' := by
  obtain ⟨made, -, history⟩ := h
  exact history.writeOnce.later known

theorem Comes.new {w w' : Recorded L} (h : Comes w w') {token : Nat}
    (unknown : World.tokensIn w' token = none) : World.tokensIn w token = none := by
  cases old : World.tokensIn w token with
  | none => rfl
  | some t =>
    obtain ⟨t', known, -⟩ := h.later old
    rw [unknown] at known
    cases known

/-- The run touches tokens through their methods alone, and each such call is recorded. -/
def Honest (x : Exec (Recorded L) α) : Prop := ∀ w, Comes w (x w).2

theorem honest_pure (a : α) : Honest (pure a : Exec (Recorded L) α) := .refl

theorem Honest.bind {x : Exec (Recorded L) α} {f : α → Exec (Recorded L) β} (hx : Honest x)
    (hf : ∀ a, Honest (f a)) : Honest (x >>= f) := by
  intro w
  rcases h : x w with ⟨r, w'⟩
  have comes : Comes w w' := by
    have first := hx w
    rw [h] at first
    exact first
  simp only [Bind.bind, Exec.bind, h]
  cases r with
  | ok a => exact comes.trans (hf a w')
  | raised e => exact comes
  | exhausted => exact comes

theorem Honest.rescue {x : Exec (Recorded L) α} {handler : Error → Exec (Recorded L) α}
    (hx : Honest x) (h : ∀ e, Honest (handler e)) : Honest (Exec.rescue x handler) := by
  intro w
  rcases hw : x w with ⟨r, w'⟩
  have comes : Comes w w' := by
    have first := hx w
    rw [hw] at first
    exact first
  simp only [Exec.rescue, hw]
  cases r with
  | ok a => exact comes
  | raised e => exact comes.trans (h e w')
  | exhausted => exact comes

/-- A recorded call. There is no call on a token that is not there. -/
def attempt (token : Nat) (o : Outcome) : Exec (Recorded L) Value := fun w =>
  let (r, w') := World.attempt token o w.1
  (r, (w', if (World.tokensIn w token).isSome then w.2 ++ [⟨token, o, r⟩] else w.2))

theorem honest_attempt (token : Nat) (o : Outcome) : Honest (attempt (L := L) token o) := by
  intro w
  simp only [attempt]
  cases known : World.tokensIn w token with
  | none =>
    rw [World.attempt_unknown known]
    exact .refl w
  | some t => exact ⟨[_], rfl, .call .start known rfl⟩

end Recorded

open Recorded

variable {L : Language}

/-! ## What the worlds of a log tell -/

/-- The action and the token that are issued. -/
def Protocol.Act.issued? : Act → Option (Value × Nat)
  | .issued action (.ok token) _ _ => some (action, token)
  | _ => none

/-- The worlds of a session so far. -/
def Log.worlds {W : Type} (start : W) (log : Log W) : List W := start :: log.map Mark.world

/-- Each world has come from the earlier ones, and a token that is issued is new. -/
structure Ledger (start : Recorded L) (p : Recorded L × Log (Recorded L)) : Prop where
  now : ∀ w ∈ Log.worlds start p.2, Comes w p.1
  order : (Log.worlds start p.2).Pairwise Comes
  fresh : ∀ {before m after action token}, p.2 = before ++ m :: after →
    m.act.issued? = some (action, token) →
    (∀ w ∈ Log.worlds start before, World.tokensIn w token = none) ∧
      ∃ t, World.tokensIn m.world token = some t ∧ t.action = action

theorem ledger_start (start : Recorded L) : Ledger start (start, []) where
  now w hw := by
    obtain rfl : w = start := List.mem_singleton.mp hw
    exact .refl w
  order := List.pairwise_singleton _ _
  fresh h := by simp at h

theorem Ledger.change {start w w' : Recorded L} {log : Log (Recorded L)}
    (ledger : Ledger start (w, log)) (comes : Comes w w') : Ledger start (w', log) :=
  ⟨fun u hu => (ledger.now u hu).trans comes, ledger.order, ledger.fresh⟩

theorem Ledger.snoc {start w w' : Recorded L} {log : Log (Recorded L)}
    (ledger : Ledger start (w, log)) (comes : Comes w w') (place : Nat) {a : Act}
    (issues : ∀ action token, a.issued? = some (action, token) →
      World.tokensIn w token = none ∧ ∃ t, World.tokensIn w' token = some t ∧ t.action = action) :
    Ledger start (w', log ++ [⟨place, a, w'⟩]) := by
  have worlds : Log.worlds start (log ++ [⟨place, a, w'⟩]) = Log.worlds start log ++ [w'] := by
    simp [Log.worlds]
  have all (u : Recorded L) (hu : u ∈ Log.worlds start log) : Comes u w' :=
    (ledger.now u hu).trans comes
  refine ⟨?_, ?_, ?_⟩
  · intro u hu
    rw [worlds] at hu
    rcases List.mem_append.mp hu with hu | hu
    · exact all u hu
    · rw [List.mem_singleton.mp hu]
      exact .refl w'
  · rw [worlds]
    refine List.pairwise_append.mpr ⟨ledger.order, List.pairwise_singleton _ _, ?_⟩
    intro u hu v hv
    rw [List.mem_singleton.mp hv]
    exact all u hu
  · intro before m after action token hlog hact
    rcases Log.split hlog with ⟨rest, rfl, rfl⟩ | ⟨rest, rfl, hrest⟩
    · exact ledger.fresh rfl hact
    · cases rest with
      | nil =>
        obtain ⟨rfl, -⟩ := List.cons.inj hrest
        obtain ⟨unknown, known⟩ := issues action token hact
        rw [List.append_nil]
        exact ⟨fun u hu => (ledger.now u hu).new unknown, known⟩
      | cons m' rest => simp at hrest

section

variable {drive : Nat → Value → Exec (Recorded L) Step}
  {call : Value → List Value → Exec (Recorded L) Value} {c : Source (Recorded L)}

theorem stable_ledger (drives : ∀ n v, Honest (drive n v))
    (calls : ∀ f arguments, Honest (call f arguments)) (source : ∀ v, Honest (c v))
    (start : Recorded L) :
    Stable (World.hostBeside drive call) World.tokensIn c (Ledger start) := by
  have lawful := World.lawful_hostBeside drive call
  refine .of_served ?_ ?_ ?_ ?_ ?_
  · intro n w log ledger
    exact ledger.change (comes_of_kept (World.tokensKept_of_eq (World.tokens_note n w.1)) w.2)
  · intro place w a w' log served ledger
    -- Only one service makes a token.
    have quietly {w' : Recorded L} {a : Act} (comes : Comes w w') (none : a.issued? = none) :
        Ledger start (w', log ++ [⟨place, a, w'⟩]) := by
      refine ledger.snoc comes place fun action token h => ?_
      rw [none] at h
      cases h
    cases served with
    | drove => exact quietly (drives _ _ w) rfl
    | called => exact quietly (calls _ _ w) rfl
    | @issued action =>
      obtain ⟨token, w', t, issued, new, known, own, -⟩ := lawful.issues action w
      have comes : Comes w ((World.hostBeside drive call).issue action w).2 :=
        comes_of_kept (World.tokensKept_issue action w.1) w.2
      rw [issued] at comes ⊢
      refine ledger.snoc comes place fun action' token' h => ?_
      obtain ⟨rfl, rfl⟩ := Prod.mk.inj (Option.some.inj h)
      exact ⟨new, t, known, own⟩
    | read => exact quietly (.refl w) rfl
    | @made cause =>
      have kept : World.TokensKept w.1 (World.mint cause w.1).2 := World.tokensKept_of_eq rfl
      exact quietly (comes_of_kept kept w.2) rfl
  · intro v w log ledger
    exact ledger.snoc (source v w) 0 fun _ _ h => by cases h
  · intro place v w log ledger
    exact ledger.snoc (.refl w) place fun _ _ h => by cases h
  · intro place sight w log ledger
    exact ledger.snoc (.refl w) place fun _ _ h => by cases h

end

theorem Ledger.comes {start : Recorded L} {p : Recorded L × Log (Recorded L)}
    (ledger : Ledger start p) {first last : Log (Recorded L)} {m m' : Mark (Recorded L)}
    (hlog : p.2 = first ++ m :: last) (hm' : m' ∈ m :: last) : Comes m.world m'.world := by
  rcases List.mem_cons.mp hm' with rfl | hm'
  · exact .refl _
  have order := (List.pairwise_cons.mp ledger.order).2
  rw [hlog, List.map_append] at order
  refine (List.pairwise_cons.mp (List.pairwise_append.mp order).2.1).1 _ ?_
  exact List.mem_map_of_mem hm'

theorem Ledger.started {start : Recorded L} {p : Recorded L × Log (Recorded L)}
    (ledger : Ledger start p) {m : Mark (Recorded L)} (hm : m ∈ p.2) : Comes start m.world :=
  (List.pairwise_cons.mp ledger.order).1 _ (List.mem_map_of_mem hm)

section

variable {table : Table} {start : Recorded L} {p : Recorded L × Log (Recorded L)}
  (ledger : Ledger start p) {first last : Log (Recorded L)} (hlog : p.2 = first ++ last)
  {action f : Value} {token : Nat} {r : Result Value} {exchange : List Act}
  (handles : Handles table (Log.actsAt 0 first) action f token r exchange)

include ledger hlog handles

theorem Ledger.issued : ∃ before m after t, first = before ++ m :: after ∧
    m.act.issued? = some (action, token) ∧
    (∀ w ∈ Log.worlds start before, World.tokensIn w token = none) ∧
    World.tokensIn m.world token = some t ∧ t.action = action ∧
    Log.actsAt 0 after =
      .called f (Dispatch.parametersOf action ++ [.tactics token]) r :: exchange := by
  obtain ⟨earlier, v, old, new, -, hacts⟩ := handles.acts
  rw [List.append_cons] at hacts
  obtain ⟨before, m, after, rfl, -, hact, hafter⟩ := Log.exists_mark hacts
  have issued : m.act.issued? = some (action, token) := by rw [hact]; rfl
  rw [List.append_assoc, List.cons_append] at hlog
  obtain ⟨unknown, t, known, own⟩ := ledger.fresh hlog issued
  exact ⟨before, m, after, t, rfl, issued, unknown, known, own, hafter⟩

theorem Ledger.known {m : Mark (Recorded L)} (hm : m ∈ first.getLast?) :
    ∃ t, World.tokensIn m.world token = some t ∧ t.action = action := by
  obtain ⟨before, m', after, t, rfl, -, -, known, own, -⟩ := ledger.issued hlog handles
  have hm : m ∈ m' :: after := by
    rw [List.getLast?_append_cons] at hm
    exact List.mem_of_getLast? hm
  rw [List.append_assoc, List.cons_append] at hlog
  obtain ⟨t', known', later⟩ := (ledger.comes hlog (List.mem_append_left last hm)).later known
  exact ⟨t', known', later.action.trans own⟩

theorem Ledger.unread {m : Mark (Recorded L)} (hm : m ∈ first) (lowest : m.place = 0)
    {record : Option Token} (hact : m.act = .read token record) :
    World.tokensIn m.world token = none := by
  obtain ⟨before, m', after, t, rfl, issued, unknown, -, -, hafter⟩ := ledger.issued hlog handles
  rcases List.mem_append.mp hm with hm | hm
  · exact unknown _ (List.mem_cons_of_mem _ (List.mem_map_of_mem hm))
  rcases List.mem_cons.mp hm with rfl | hm
  · rw [hact] at issued
    cases issued
  · -- There are no such acts in the exchange with a computation.
    have mem : m.act ∈ Log.actsAt 0 after := Log.mem_actsAt.mpr ⟨m, hm, lowest, rfl⟩
    rw [hafter, hact] at mem
    rcases List.mem_cons.mp mem with h | mem
    · cases h
    · obtain ⟨n, -, body⟩ := handles.body _ mem
      exact body.elim

end

/-! ## What the loop does with the first call -/

/-- What the loop does about an action, given the first call on the token of the action. -/
def Obeys {W : Type} (place : Nat) (action : Value) (r : Result (List Sight)) (rest : Log W)
    (p : Stacked W) : Option Outcome → Prop
  | none => ∃ e w rest',
      rest = ⟨0, .made (.contract action (.str Token.neverSettled)) (.ok e), w⟩ :: rest' ∧
        e.cause = .contract action (.str Token.neverSettled) ∧ Shut place (.error e) rest' p
  | some (.abort v) => Shut place (.ok (.completed v)) rest p
  /- The source is driven with the value, unless the bound of the loop is used up. -/
  | some (.resume v) => rest = [] ∧ r = .exhausted ∨
      ∃ step w rest', rest = ⟨0, .advanced v step, w⟩ :: rest'

section

variable {W : Type} {table : Table} {K : W × Log W → Prop} {place : Nat} {p : Stacked W}
  (session : Session table K place p) {before rest : Log W} {token : Nat} {record : Option Token}
  {w : W} (hlog : p.log = before ++ ⟨0, .read token record, w⟩ :: rest)

include session hlog

theorem Session.obeys {action : Value} {r : Result (List Sight)}
    (onward : Onward table place p (.concluded action (record.bind (·.outcome))) rest)
    (stops : r = .exhausted ∨ Paused p.log) :
    Obeys place action r rest p (record.bind (·.outcome)) := by
  have leads := session.leads hlog
  obtain ⟨s₀, s₁, -, allowed, -, s, follows, idle⟩ := session.past hlog rfl ⟨rfl, rfl⟩
  cases allowed with
  | @conclude action' =>
    -- Nothing decided is refused, an abort is returned, and a resumption is an advance of the
    -- source.
    cases decided : record.bind (·.outcome) with
    | none =>
      rw [decided] at onward
      obtain ⟨e, w', rest', rfl, cause, escapes⟩ := onward.refuses leads rfl ⟨rfl, rfl⟩
      cases escapes with
      | same kind shut => exact ⟨e, w', rest', rfl, cause, shut⟩
      | other kind _ _ _ => simp [ErrorOf.kind, cause, Cause.kind] at kind
    | some o =>
      rw [decided] at onward follows
      cases o with
      | abort v => exact onward.returns
      | resume v =>
        cases rest with
        | nil =>
          refine Or.inl ⟨rfl, stops.resolve_right fun paused => ?_⟩
          have last : ⟨0, .read token record, w⟩ ∈ p.log.getLast? := by rw [hlog]; simp
          exact paused _ last ⟨rfl, rfl⟩
        | cons m rest =>
          obtain ⟨place', a, w'⟩ := m
          obtain rfl : place' = 0 := (List.isChain_cons_cons.mp leads).1 rfl rfl
          have first : Log.actsAt 0 (⟨0, a, w'⟩ :: rest) = a :: Log.actsAt 0 rest :=
            @Log.actsAt_cons_self W rest ⟨0, a, w'⟩
          rw [first] at follows
          obtain ⟨s₂, allowed, -⟩ := follows_cons.mp follows
          cases allowed with
          | advance => exact Or.inr ⟨_, w', rest, rfl⟩

theorem Session.reads : ∃ action f returned exchange,
    Handles table (Log.actsAt 0 before) action f token (.ok returned) exchange := by
  obtain ⟨s₀, s₁, past, allowed, -⟩ := session.past hlog rfl ⟨rfl, rfl⟩
  cases allowed with
  | @conclude action =>
    obtain ⟨f, returned, exchange, handles⟩ := past
    exact ⟨action, f, returned, exchange, handles⟩

end

/-- The first call on a token takes its decision, and every later one is refused with an error about
the action of the token. No call changes another token or drives anything. When an entry and its
computation have finished, the loop acts on the first call on the token of the action so far, and on
nothing else. If there is none it refuses. It never looks at the token again. -/
theorem first_call_decides (drive : Nat → Value → Exec (Recorded L) Step)
    (call : Value → List Value → Exec (Recorded L) Value) (table : Table) (c : Source (Recorded L))
    (layers : List Layer) (bound : Nat) (turns : List (Turn (Recorded L)))
    (places : ∀ t ∈ turns, t.place = layers.length) (drives : ∀ n v, Honest (drive n v))
    (calls : ∀ f arguments, Honest (call f arguments)) (source : ∀ v, Honest (c v))
    (changes : ∀ t ∈ turns, ∀ w, Comes w (t.change w)) (w : World L) {r : Result (List Sight)}
    {p : Stacked (Recorded L)}
    (run : takeTurns (stack (World.hostBeside drive call) World.tokensIn table c bound)
      Stacked.change turns (.fresh (w, []) layers) = (r, p)) :
    (∀ {u u' : World L} {attempts}, World.History u attempts u' → World.WriteOnce u attempts u') ∧
    (∀ token o (u : World L), World.Aside token u (World.attempt token o u).2) ∧
    (∀ m ∈ p.log, World.History w m.world.2 m.world.1) ∧
    ∀ {before after : Log (Recorded L)} {m : Mark (Recorded L)}, p.log = before ++ m :: after →
      m.place = 0 → m.act.Finishes → ∃ action f token returned exchange t w' rest,
        Handles table (Log.actsAt 0 (before ++ [m])) action f token (.ok returned) exchange ∧
        after = ⟨0, .read token (some t), w'⟩ :: rest ∧ t.action = action ∧
        t.outcome = firstOutcome m.world.2 token ∧
        Obeys layers.length action r rest p (firstOutcome m.world.2 token) ∧
        ∀ m' ∈ rest, m'.place = 0 → ∀ record, m'.act ≠ .read token record := by
  have lawful := World.lawful_hostBeside drive call
  have stable := (stable_ledger drives calls source (w, [])).and
    (stable_prompt c World.tokensIn_note)
  have session := session_of_run stable lawful places
    (fun t ht w log paused h => ⟨h.1.change (changes t ht w), h.2.change paused _⟩)
    ⟨ledger_start _, prompt_start _⟩ run
  obtain ⟨ledger, prompt⟩ := session.kept
  have histories (m : Mark (Recorded L)) (hm : m ∈ p.log) :
      World.History w m.world.2 m.world.1 := by
    obtain ⟨made, hmade, history⟩ := ledger.started hm
    rw [show m.world.2 = made from hmade]
    exact history
  refine ⟨World.History.writeOnce, World.aside_attempt, histories, ?_⟩
  intro before after m hlog lowest finishes
  obtain ⟨action, f, token, returned, exchange, record, w', rest, handles, rfl, onward⟩ :=
    session.finishes hlog lowest finishes
  have hrecord := prompt.record hlog finishes.inner
  have hread := hlog.trans (List.append_cons _ _ _)
  have last : m ∈ (before ++ [m]).getLast? := by simp
  obtain ⟨t, known, own⟩ := ledger.known hread handles last
  obtain ⟨b, m₀, b', t₀, -, -, unknown, -⟩ := ledger.issued hread handles
  rw [known] at hrecord
  subst hrecord
  -- The token was not there at the start, so its history says what was called on it first.
  have decided : t.outcome = firstOutcome m.world.2 token := by
    have history := histories m (by rw [hlog]; simp)
    have new : w.tokens.get? token = none := unknown (w, []) List.mem_cons_self
    rw [history.writeOnce.outcome known, World.settledBy, new]
    rfl
  refine ⟨action, f, token, returned, exchange, t, w', rest, handles, rfl, own, decided, ?_, ?_⟩
  · rw [← decided]
    exact session.obeys hread onward (takeTurns_pauses (paused_fresh _ layers) run)
  · -- A token that is read later was issued later, so it was not there yet.
    rintro ⟨place, a, w₁⟩ hm' rfl record rfl
    obtain ⟨middle, later, rfl⟩ := List.append_of_mem hm'
    rw [← List.cons_append, ← List.append_assoc] at hread
    obtain ⟨action', f', returned', exchange', handles'⟩ := session.reads hread
    have mem : ⟨0, .read token (some t), w'⟩ ∈
        before ++ [m] ++ ⟨0, .read token (some t), w'⟩ :: middle := by simp
    have unknown' := ledger.unread hread handles' mem rfl rfl
    have comes := ledger.comes hlog (List.mem_cons_of_mem m List.mem_cons_self)
    obtain ⟨t', known', -⟩ := comes.later known
    rw [unknown'] at known'
    cases known'

namespace Small

/-- The entry resumes the action. Then it tries to abort it as well, and does not mind the error. -/
def stubborn (_ : Value) : List Value → Exec (Recorded language) Value
  | [.tactics token] => do
    let _ ← Recorded.attempt token (.resume (.int 7))
    (Recorded.attempt token (.abort .nil)).rescue fun _ => return .nil
  | _ => return .nil

theorem honest_stubborn (f : Value) (arguments : List Value) : Honest (stubborn f arguments) := by
  unfold stubborn
  split
  · refine (honest_attempt _ _).bind fun _ => ?_
    exact (honest_attempt _ _).rescue fun _ => honest_pure _
  · exact honest_pure _

/-- Yields the action and completes with the answer. -/
def asking (v : Value) : Exec (Recorded language) Step :=
  return match v with
  | .nil => .suspended action
  | v => .completed v

def idle (_ : Nat) (_ : Value) : Exec (Recorded language) Step := return .completed .nil

def resumed : Result (List Sight) × Stacked (Recorded language) :=
  takeTurns (stack (World.hostBeside idle stubborn) World.tokensIn table asking 9) Stacked.change
    [⟨4, id, .nil⟩] (.fresh ({ memory := () }, []) layers)

end Small

theorem first_call_decides_small :
    ∃ action t w rest, Small.resumed.2.log.drop 8 = ⟨0, .read 0 (some t), w⟩ :: rest ∧
      t.outcome = some (.resume (.int 7)) ∧
      Obeys 4 action Small.resumed.1 rest Small.resumed.2 (some (.resume (.int 7))) := by
  have hlog := Log.split_at Small.resumed.2.log 7 (by decide)
  obtain ⟨-, -, -, decides⟩ :=
    first_call_decides Small.idle Small.stubborn Small.table Small.asking Small.layers 9
      [⟨4, id, .nil⟩] (by decide) (fun _ _ => honest_pure _) Small.honest_stubborn
      (fun _ => honest_pure _) (by simp [Comes.refl]) { memory := () } (Prod.eta _).symm
  obtain ⟨action, f, token, returned, exchange, t, w, rest, -, hafter, -, decided, obeys, -⟩ :=
    decides hlog rfl rfl
  have htoken : some 0 = some token := congrArg (fun after => after.head?.bind Mark.token?) hafter
  obtain rfl := Option.some.inj htoken
  exact ⟨action, t, w, rest, hafter, decided, obeys⟩

end OneShot
