import OneShot.Proofs.Protocol
import OneShot.World.Access

/-!
# Handling follows the answer protocol

Each part of the loop leads from one stage of the protocol to another one, and so does a whole
session with a driver. The log changes nothing in the run.
-/

namespace OneShot

open Protocol

variable {W α β : Type}

theorem World.lawful_host {L : Language} (drive : Nat → Value → Exec (World L) Step)
    (call : Value → List Value → Exec (World L) Value) :
    (World.host drive call).Lawful fun w => w.tokens.get? where
  mints _ _ := ⟨_, _, rfl, rfl⟩
  notes _ _ := ⟨_, rfl⟩
  issues action w := by
    refine ⟨w.tokens.next, _, .pending action w.nextId, rfl, ?_, w.tokens.get?_add _, rfl, rfl⟩
    simp [Pool.get?, Pool.next]
  reads _ _ := rfl

namespace Dispatch

/-! ## Parts of the loop -/

/-- The logged run is the run with a log, and the log leads on from a stage. -/
def Leads (table : Table) (s : Stage) (x : Exec W α) (logged : Exec (W × List Act) α)
    (next : α → Stage) : Prop :=
  ∀ w log, ∃ acts, logged (w, log) = ((x w).1, ((x w).2, log ++ acts)) ∧
    (∀ a ∈ acts, a.Inner) ∧ Follows table s acts (.onward next (x w).1)

def moved : Move Phase → Stage
  | .suspend x phase => .yields x phase
  | .complete r => .returns r

def Decision.stage : Decision → Stage
  | .proceed v => .answered v
  | .stop move => moved move

section

variable {table : Table} {s : Stage}

theorem leads_pure (next : α → Stage) (a : α) :
    Leads (W := W) table (next a) (pure a) (pure a) next :=
  fun _ log => ⟨[], by rw [List.append_nil]; rfl, List.forall_mem_nil _, .nil⟩

theorem leads_raise (e : Error) (next : α → Stage) :
    Leads (W := W) table (.raises e) (Exec.raise e) (Exec.raise e) next :=
  fun _ log => ⟨[], by rw [List.append_nil]; rfl, List.forall_mem_nil _, .nil⟩

theorem leads_bind {x : Exec W α} {x' : Exec (W × List Act) α} {f : α → Exec W β}
    {f' : α → Exec (W × List Act) β} (mid : α → Stage) {next : β → Stage}
    (hx : Leads table s x x' mid) (hf : ∀ a, Leads table (mid a) (f a) (f' a) next) :
    Leads table s (x >>= f) (x' >>= f') next := by
  intro w log
  obtain ⟨acts, heq, inner, follows⟩ := hx w log
  simp only [Bind.bind, Exec.bind, heq]
  rcases hxw : x w with ⟨r, w₁⟩
  rw [hxw] at follows
  cases r with
  | ok a =>
    obtain ⟨acts', heq', inner', follows'⟩ := hf a w₁ (log ++ acts)
    refine ⟨acts ++ acts', by simpa using heq', ?_, follows.trans follows'⟩
    intro a ha
    rcases List.mem_append.mp ha with ha | ha
    · exact inner a ha
    · exact inner' a ha
  | raised e => exact ⟨acts, rfl, inner, follows⟩
  | exhausted => exact ⟨acts, rfl, inner, follows⟩

theorem leads_beside {x : Exec W Unit} (ends : ∀ w, ∃ w', x w = (.ok (), w')) :
    Leads table s x x.beside fun _ => s := by
  intro w log
  obtain ⟨w', h⟩ := ends w
  refine ⟨[], ?_, List.forall_mem_nil _, ?_⟩
  · rw [Exec.beside_apply, List.append_nil]
  · rw [h]
    exact .nil

theorem leads_logged {x : Exec W α} (act : W → Result α → W → Act) {next : α → Stage}
    (inner : ∀ w r w', (act w r w').Inner)
    (allowed : ∀ w, Allowed table s (act w (x w).1 (x w).2) (.onward next (x w).1)) :
    Leads table s x (x.logged act) next :=
  fun w _ => ⟨_, rfl, List.forall_mem_singleton.mpr (inner w _ _), .one (allowed w)⟩

variable {host : Host W} {tokens : W → Nat → Option Token} (lawful : host.Lawful tokens)

include lawful

theorem leads_noted (n : Note) (d : Decision) :
    Leads table d.stage (do host.note n; return d) (do (host.logged tokens).note n; return d)
      Decision.stage :=
  leads_bind _ (leads_beside (lawful.notes n)) fun _ => leads_pure Decision.stage d

theorem leads_fail (cause : Cause Value) (next : α → Stage) :
    Leads table (.refuses cause) (host.fail cause) ((host.logged tokens).fail cause) next := by
  refine leads_bind .raises (leads_logged (fun _ r _ => .made cause r) (fun _ _ _ => ⟨rfl, rfl⟩)
    fun w => ?_) fun e => leads_raise e next
  obtain ⟨e, w', h, hcause⟩ := lawful.mints cause w
  rw [h]
  exact .refuse hcause

theorem leads_conclude (action : Value) (token : Nat) :
    Leads table (.settles action token) (conclude host action token)
      (conclude (host.logged tokens) action token) Decision.stage := by
  refine leads_bind (.concluded action)
    (leads_logged (fun w _ _ => .read token (tokens w token)) (fun _ _ _ => ⟨rfl, rfl⟩)
      fun w => ?_) fun o => ?_
  · rw [lawful.reads]
    exact .conclude
  · rcases o with _ | ⟨v | v⟩
    · exact leads_fail lawful _ _
    · exact leads_noted lawful _ _
    · exact leads_noted lawful _ _

theorem leads_runBody (n : Nat) (action : Value) (token : Nat) (v : Value) :
    Leads table (.runs n action token v) (runBody host n action token v)
      (runBody (host.logged tokens) n action token v) Decision.stage := by
  refine leads_bind (.drove n action token)
    (leads_logged (fun _ r _ => .drove n v r) (fun _ _ _ => ⟨rfl, rfl⟩) fun w => .drive)
    fun step => ?_
  cases step with
  | suspended x => exact leads_pure Decision.stage _
  | completed r => exact leads_conclude lawful action token

theorem leads_callHandler (handler action : Value) :
    Leads table (.claimed action handler) (callHandler host handler action (parametersOf action))
      (callHandler (host.logged tokens) handler action (parametersOf action)) Decision.stage := by
  refine leads_bind (.issued action handler)
    (leads_logged (fun w r w' => .issued action r (tokens w) (tokens w'))
      (fun _ _ _ => ⟨rfl, rfl⟩) fun w => ?_) fun token => ?_
  · obtain ⟨token, w', t, h, fresh, added, own, pending⟩ := lawful.issues action w
    rw [h]
    exact .issue fresh added own pending
  refine leads_bind (.called action token)
    (leads_logged (fun _ r _ => .called handler (parametersOf action ++ [.tactics token]) r)
      (fun _ _ _ => ⟨rfl, rfl⟩) fun w => .call) fun returned => ?_
  unfold Stage.called
  cases returned.computation? with
  | none => exact leads_conclude lawful action token
  | some n =>
    exact leads_bind _ (leads_beside (lawful.notes _))
      fun _ => leads_runBody lawful n action token .nil

theorem leads_resolve (x : Value) :
    Leads table (.owing table x) (resolve host table x) (resolve (host.logged tokens) table x)
      Decision.stage := by
  unfold Stage.owing resolve
  cases table.claim x with
  | notKey name => exact leads_fail lawful _ _
  | unclaimed => exact leads_noted lawful _ _
  | entry entry =>
    by_cases callable : entry.isCallable
    · simp only [if_pos callable]
      exact leads_callHandler lawful entry x
    · simp only [if_neg callable]
      exact leads_noted lawful _ _

theorem leads_react (step : Step) :
    Leads table (.advanced table step) (react host table step)
      (react (host.logged tokens) table step) Decision.stage := by
  cases step with
  | suspended x => exact leads_resolve lawful x
  | completed r => exact leads_pure Decision.stage _

theorem leads_takeUp (phase : Phase) (v : Value) :
    Leads table (.taken v phase) (takeUp host phase v) (takeUp (host.logged tokens) phase v)
      Decision.stage := by
  cases phase with
  | start => exact leads_pure Decision.stage (.proceed .nil)
  | forwarding => exact leads_pure Decision.stage (.proceed v)
  | handlerBody n action token => exact leads_runBody lawful n action token v

theorem leads_seal {S : Type} (e : Error) (next : Step → Stage) :
    Leads table (.raises e) (Life.seal host.mint (.error e : Except Error (Move S)))
      (Life.seal (host.logged tokens).mint (.error e : Except Error (Move S))) next := by
  unfold Life.seal
  by_cases stop : e.kind = .stopIteration
  · simp only [if_pos stop]
    refine leads_bind .raises (leads_logged (fun _ r _ => .made (.refused .endOfIteration) r)
      (fun _ _ _ => ⟨rfl, rfl⟩) fun w => ?_) fun e' => leads_raise e' next
    obtain ⟨e', w', h, hcause⟩ := lawful.mints (.refused .endOfIteration) w
    rw [h]
    exact .convert stop hcause
  · simp only [if_neg stop]
    exact leads_raise e next

end

/-! ## The loop -/

/-- The loop has come to a stage. -/
def Reached (bound : Nat) (acts : List Act) (s : Stage) (next : α → Stage) : Result α → Prop
  | .ok a => s = next a
  | .raised e => s = .raises e
  | .exhausted => LeftOver bound acts s

/-- The logged run is the run with a log, and the log leads on from a stage within a bound. -/
def LeadsWithin (bound : Nat) (table : Table) (s : Stage) (x : Exec W α)
    (logged : Exec (W × List Act) α) (next : α → Stage) : Prop :=
  ∀ w log, ∃ acts s', logged (w, log) = ((x w).1, ((x w).2, log ++ acts)) ∧
    (∀ a ∈ acts, a.Inner) ∧ Follows table s acts s' ∧ Reached bound acts s' next (x w).1

section

variable {table : Table} {s : Stage} {bound : Nat}

theorem reached_onward (acts : List Act) (next : α → Stage) (r : Result α) :
    Reached bound acts (.onward next r) next r := by
  cases r with
  | ok a => rfl
  | raised e => rfl
  | exhausted => exact Or.inl rfl

theorem Leads.within {x : Exec W α} {x' : Exec (W × List Act) α} {next : α → Stage}
    (h : Leads table s x x' next) (bound : Nat) : LeadsWithin bound table s x x' next := by
  intro w log
  obtain ⟨acts, heq, inner, follows⟩ := h w log
  exact ⟨acts, _, heq, inner, follows, reached_onward acts next _⟩

theorem Reached.mono {acts acts' : List Act} {next : α → Stage} {r : Result α} {bound' : Nat}
    (h : Reached bound acts s next r)
    (le : bound' + acts.countP Act.isAdvanced ≤ bound + acts'.countP Act.isAdvanced) :
    Reached bound' acts' s next r := by
  cases r with
  | ok a => exact h
  | raised e => exact h
  | exhausted =>
    rcases h with h | ⟨h, hle⟩
    · exact Or.inl h
    · exact Or.inr ⟨h, by omega⟩

theorem within_bind {x : Exec W α} {x' : Exec (W × List Act) α} {f : α → Exec W β}
    {f' : α → Exec (W × List Act) β} (mid : α → Stage) {next : β → Stage}
    (hx : Leads table s x x' mid) (hf : ∀ a, LeadsWithin bound table (mid a) (f a) (f' a) next) :
    LeadsWithin bound table s (x >>= f) (x' >>= f') next := by
  intro w log
  obtain ⟨acts, heq, inner, follows⟩ := hx w log
  simp only [Bind.bind, Exec.bind, heq]
  rcases hxw : x w with ⟨r, w₁⟩
  rw [hxw] at follows
  cases r with
  | ok a =>
    obtain ⟨acts', s', heq', inner', follows', reached⟩ := hf a w₁ (log ++ acts)
    refine ⟨acts ++ acts', s', by simpa using heq', ?_, follows.trans follows', ?_⟩
    · intro a ha
      rcases List.mem_append.mp ha with ha | ha
      · exact inner a ha
      · exact inner' a ha
    · refine reached.mono ?_
      rw [List.countP_append]
      omega
  | raised e => exact ⟨acts, _, rfl, inner, follows, rfl⟩
  | exhausted => exact ⟨acts, _, rfl, inner, follows, Or.inl rfl⟩

theorem within_source (c : Source W) {v : Value} {f : Step → Exec W β}
    {f' : Step → Exec (W × List Act) β} {next : β → Stage}
    (hf : ∀ step, LeadsWithin bound table (.advanced table step) (f step) (f' step) next) :
    LeadsWithin (bound + 1) table (.answered v) (c v >>= f) (c.logged v >>= f') next := by
  intro w log
  have advances : Follows table (.answered v) [.advanced v (c v w).1]
      (.onward (.advanced table) (c v w).1) := .one .advance
  have inner (r : Result Step) : ∀ a ∈ [Act.advanced v r], a.Inner :=
    List.forall_mem_singleton.mpr ⟨rfl, rfl⟩
  simp only [Bind.bind, Exec.bind, Source.logged, Exec.logged]
  rcases hw : c v w with ⟨r, w₁⟩
  rw [hw] at advances
  cases r with
  | ok step =>
    obtain ⟨acts, s', heq, inner', follows, reached⟩ := hf step w₁ (log ++ [.advanced v (.ok step)])
    refine ⟨.advanced v (.ok step) :: acts, s', by simpa using heq, ?_, advances.trans follows, ?_⟩
    · exact List.forall_mem_cons.mpr ⟨⟨rfl, rfl⟩, inner'⟩
    · refine reached.mono ?_
      rw [List.countP_cons_of_pos rfl]
      omega
  | raised e => exact ⟨_, _, rfl, inner _, advances, rfl⟩
  | exhausted => exact ⟨_, _, rfl, inner _, advances, Or.inl rfl⟩

variable {host : Host W} {tokens : W → Nat → Option Token} (lawful : host.Lawful tokens)
  (c : Source W)

include lawful

theorem within_proceed (d : Decision) :
    LeadsWithin bound table d.stage (proceed host table c bound d)
      (proceed (host.logged tokens) table c.logged bound d) moved := by
  induction bound generalizing d with
  | zero =>
    cases d with
    | stop move =>
      simp only [proceed]
      exact (leads_pure moved move).within 0
    | proceed v =>
      -- The bound is used up while an answer is owed.
      simp only [proceed]
      exact fun w log => ⟨[], _, by rw [List.append_nil]; rfl, List.forall_mem_nil _, .nil,
        Or.inr ⟨⟨v, rfl⟩, Nat.le_refl 0⟩⟩
  | succ bound ih =>
    cases d with
    | stop move =>
      simp only [proceed]
      exact (leads_pure moved move).within (bound + 1)
    | proceed v =>
      simp only [proceed]
      exact within_source c fun step => within_bind Decision.stage (leads_react lawful step) ih

theorem within_advance (phase : Phase) (v : Value) :
    LeadsWithin bound table (.taken v phase) (advance host table c bound phase v)
      (advance (host.logged tokens) table c.logged bound phase v) moved :=
  within_bind Decision.stage (leads_takeUp lawful phase v) fun d => within_proceed lawful c d

end

/-! ## One drive -/

/-- Where the driver is between two drives, and where the loop is. -/
inductive Between : Life Phase → Stage → Prop where
  | fresh : Between (.fresh .start) (.waits .start)
  | suspended {phase} : Between (.suspended phase) (.waits phase)
  | finished : Between .finished .over

/-- The driver is to see how a drive has ended, and is then between two drives. -/
def Given (table : Table) (bound : Nat) (acts : List Act) (s : Stage) (l : Life Phase)
    (r : Result Step) : Prop :=
  (∃ sight s', r = .of sight ∧ Allowed table s (.gave sight) s' ∧ Between l s') ∨
    r = .exhausted ∧ LeftOver bound acts s

section

variable {table : Table} {bound : Nat} {host : Host W} {tokens : W → Nat → Option Token}
  (lawful : host.Lawful tokens) (c : Source W)

include lawful

theorem entered_follows {l : Life Phase} {v u : Value} {phase : Phase}
    (entry : l.enters? v = some (phase, u)) (w : W) (log : List Act) :
    ∃ acts s r w' l', handling host table c bound v (w, l) = (r, (w', l')) ∧
      handling (host.logged tokens) table c.logged bound v ((w, log), l) =
        (r, ((w', log ++ acts), l')) ∧
      (∀ a ∈ acts, a.Inner) ∧ Follows table (.taken u phase) acts s ∧
      Given table bound acts s l' r := by
  obtain ⟨acts, s, heq, inner, follows, reached⟩ :=
    @within_advance W table bound host tokens lawful c phase u w log
  simp only [handling, Source.ofBody_entered entry, enter_apply, heq]
  rcases hadvance : advance host table c bound phase u w with ⟨r, w₁⟩
  rw [hadvance] at reached
  cases r with
  | ok move =>
    refine ⟨acts, s, .ok move.step, w₁, Life.after (.ok move), rfl, rfl, inner, follows, Or.inl ?_⟩
    subst reached
    cases move with
    | suspend x phase' => exact ⟨.ok (.suspended x), _, rfl, .suspend, .suspended⟩
    | complete r => exact ⟨.ok (.completed r), _, rfl, .complete, .finished⟩
  | raised e =>
    -- The end of an iteration is replaced on the way out, and that is in the log as well.
    subst reached
    obtain ⟨acts', heq', inner', follows'⟩ :=
      leads_seal (S := Phase) lawful e (fun _ => .stuck) w₁ (log ++ acts)
    obtain ⟨e', w₂, hseal, kind, -⟩ := Life.seal_error (S := Phase) lawful.mints e w₁
    rw [hseal] at heq' follows'
    refine ⟨acts ++ acts', .raises e', .raised e', w₂, .finished, ?_, ?_, ?_,
      follows.trans follows', Or.inl ⟨.error e', _, rfl, .raise kind, .finished⟩⟩
    · exact Exec.beside_eq.mpr ⟨hseal, rfl⟩
    · exact Exec.beside_eq.mpr ⟨heq'.trans (by rw [List.append_assoc]), rfl⟩
    · intro a ha
      rcases List.mem_append.mp ha with ha | ha
      · exact inner a ha
      · exact inner' a ha
  | exhausted =>
    exact ⟨acts, s, .exhausted, w₁, _, rfl, rfl, inner, follows, Or.inr ⟨rfl, reached⟩⟩

theorem drive_follows {l : Life Phase} {s : Stage} (between : Between l s) (v : Value) (w : W)
    (log : List Act) :
    ∃ acts s₁ s₂ r w' l', handling host table c bound v (w, l) = (r, (w', l')) ∧
      handling (host.logged tokens) table c.logged bound v ((w, log), l) =
        (r, ((w', log ++ acts), l')) ∧
      Allowed table s (.sent v) s₁ ∧ (∀ a ∈ acts, a.Inner) ∧ Follows table s₁ acts s₂ ∧
      Given table bound acts s₂ l' r := by
  cases between with
  | fresh =>
    obtain ⟨acts, s, r, w', l', plain, logged, inner, follows, given⟩ :=
      @entered_follows W table bound host tokens lawful c _ _ _ _ (Life.enters?_fresh .start v) w
        log
    exact ⟨acts, _, s, r, w', l', plain, logged, .take, inner, follows, given⟩
  | @suspended phase =>
    obtain ⟨acts, s, r, w', l', plain, logged, inner, follows, given⟩ :=
      @entered_follows W table bound host tokens lawful c _ _ _ _ (Life.enters?_suspended phase v) w
        log
    exact ⟨acts, _, s, r, w', l', plain, logged, .take, inner, follows, given⟩
  | finished =>
    refine ⟨[], _, _, .ok (.completed .nil), w, .finished, rfl, ?_, .idle, List.forall_mem_nil _,
      .nil, Or.inl ⟨.ok (.completed .nil), _, rfl, .complete, .finished⟩⟩
    rw [List.append_nil]
    rfl

end

/-! ## The whole run -/

/-- How a session has ended, with its log. -/
def Concludes (bound : Nat) (driver : List Value) (log : List Act) (s : Stage) :
    Result (List Sight) → Prop
  | .ok seen => s.Rests ∧ log.filterMap Act.sent? = driver ∧ log.filterMap Act.gave? = seen
  | .raised _ => False
  | .exhausted => LeftOver bound log s ∧ log.filterMap Act.sent? <+: driver

theorem Between.rests {l : Life Phase} {s : Stage} (h : Between l s) : s.Rests := by
  cases h with
  | fresh => exact Or.inl ⟨_, rfl⟩
  | suspended => exact Or.inl ⟨_, rfl⟩
  | finished => exact Or.inr rfl

theorem filterMap_sent_of_inner {acts : List Act} (inner : ∀ a ∈ acts, a.Inner) :
    acts.filterMap Act.sent? = [] := by
  rw [List.filterMap_eq_nil_iff]
  exact fun a ha => (inner a ha).1

theorem filterMap_gave_of_inner {acts : List Act} (inner : ∀ a ∈ acts, a.Inner) :
    acts.filterMap Act.gave? = [] := by
  rw [List.filterMap_eq_nil_iff]
  exact fun a ha => (inner a ha).2

theorem Concludes.cons {bound : Nat} {v : Value} {driver : List Value} {sight : Sight}
    {acts log : List Act} {s : Stage} {r : Result (List Sight)} (inner : ∀ a ∈ acts, a.Inner)
    (h : Concludes bound driver log s r) :
    Concludes bound (v :: driver) (.sent v :: acts ++ .gave sight :: log) s
      (r.map (sight :: ·)) := by
  have sents : (.sent v :: acts ++ .gave sight :: log).filterMap Act.sent? =
      v :: log.filterMap Act.sent? := by
    rw [List.filterMap_append, List.filterMap_cons, filterMap_sent_of_inner inner]
    rfl
  have gives : (.sent v :: acts ++ .gave sight :: log).filterMap Act.gave? =
      sight :: log.filterMap Act.gave? := by
    rw [List.filterMap_append, List.filterMap_cons, filterMap_gave_of_inner inner]
    rfl
  cases r with
  | ok seen =>
    obtain ⟨rests, hsent, hgave⟩ := h
    exact ⟨rests, by rw [sents, hsent], by rw [gives, hgave]⟩
  | raised e => exact h
  | exhausted =>
    obtain ⟨left, hsent⟩ := h
    refine ⟨left.mono ?_, ?_⟩
    · exact (List.sublist_cons_self _ log).trans (List.sublist_append_right _ _)
    · rw [sents]
      exact List.cons_prefix_cons.mpr ⟨rfl, hsent⟩

theorem Concludes.stuck {bound : Nat} {v : Value} {driver : List Value} {acts : List Act}
    {s : Stage} (inner : ∀ a ∈ acts, a.Inner) (left : LeftOver bound acts s) :
    Concludes bound (v :: driver) (.sent v :: acts) s .exhausted := by
  refine ⟨left.mono (List.sublist_cons_self _ _), ?_⟩
  rw [List.filterMap_cons, filterMap_sent_of_inner inner]
  exact List.cons_prefix_cons.mpr ⟨rfl, List.nil_prefix⟩

section

variable {X : Type} {v : Value} {driver : List Value} {sight : Sight} {r : Result (List Sight)}

theorem session_cons {source : Source W} {w w₁ w₂ : W} (drive : source v w = (.of sight, w₁))
    (rest : session source driver w₁ = (r, w₂)) :
    session source (v :: driver) w = (r.map (sight :: ·), w₂) := by
  simp only [session]
  rw [Exec.bind_ok (Exec.look_eq.mpr ⟨sight, rfl, drive⟩)]
  simp only [Bind.bind, Exec.bind, rest]
  cases r <;> rfl

theorem session_stuck {source : Source W} {w w₁ : W} (drive : source v w = (.exhausted, w₁)) :
    session source (v :: driver) w = (.exhausted, w₁) := by
  simp only [session, Exec.look, Exec.rescue, Bind.bind, Exec.bind, drive]

variable {source : Source ((W × List Act) × X)} {w w₁ : W} {log log₁ : List Act} {x x₁ : X}

theorem loggedSession_cons {p : (W × List Act) × X}
    (drive : source v ((w, log ++ [.sent v]), x) = (.of sight, ((w₁, log₁), x₁)))
    (rest : loggedSession source driver ((w₁, log₁ ++ [.gave sight]), x₁) = (r, p)) :
    loggedSession source (v :: driver) ((w, log), x) = (r.map (sight :: ·), p) := by
  simp only [loggedSession]
  rw [Exec.bind_ok (record_apply _ w log x), Exec.bind_ok (Exec.look_eq.mpr ⟨sight, rfl, drive⟩),
    Exec.bind_ok (record_apply _ w₁ log₁ x₁)]
  simp only [Bind.bind, Exec.bind, rest]
  cases r <;> rfl

theorem loggedSession_stuck {p : (W × List Act) × X}
    (drive : source v ((w, log ++ [.sent v]), x) = (.exhausted, p)) :
    loggedSession source (v :: driver) ((w, log), x) = (.exhausted, p) := by
  simp only [loggedSession]
  rw [Exec.bind_ok (record_apply _ w log x)]
  simp only [Exec.look, Exec.rescue, Bind.bind, Exec.bind, drive]

end

section

variable {table : Table} {bound : Nat} {host : Host W} {tokens : W → Nat → Option Token}
  (lawful : host.Lawful tokens) (c : Source W)

include lawful

theorem session_follows (driver : List Value) {l : Life Phase} {s : Stage} (between : Between l s)
    (w : W) (log : List Act) :
    ∃ acts s' r w' l', session (handling host table c bound) driver (w, l) = (r, (w', l')) ∧
      loggedSession (handling (host.logged tokens) table c.logged bound) driver ((w, log), l) =
        (r, ((w', log ++ acts), l')) ∧
      Follows table s acts s' ∧ Concludes bound driver acts s' r := by
  induction driver generalizing l s w log with
  | nil =>
    refine ⟨[], s, .ok [], w, l, rfl, ?_, .nil, between.rests, rfl, rfl⟩
    rw [List.append_nil]
    rfl
  | cons v driver ih =>
    obtain ⟨acts, s₁, s₂, r, w₁, l₁, plain, logged, sent, inner, follows, given⟩ :=
      @drive_follows W table bound host tokens lawful c l s between v w (log ++ [.sent v])
    have start := Follows.cons sent follows
    rcases given with ⟨sight, s₃, rfl, gave, between'⟩ | ⟨rfl, left⟩
    · obtain ⟨acts', s', r, w', l', plain', logged', rest, concludes⟩ :=
        ih between' w₁ (log ++ [.sent v] ++ acts ++ [.gave sight])
      refine ⟨.sent v :: acts ++ .gave sight :: acts', s', _, w', l', session_cons plain plain', ?_,
        start.trans (.cons gave rest), concludes.cons inner⟩
      rw [loggedSession_cons logged logged']
      simp only [List.append_assoc, List.cons_append, List.nil_append]
    · refine ⟨.sent v :: acts, s₂, .exhausted, w₁, l₁, session_stuck plain, ?_, start,
        .stuck inner left⟩
      rw [loggedSession_stuck logged, List.append_assoc]
      rfl

end

/-- Handling follows the answer protocol, whatever the computation, the table, the driver and the
rest of the program do. The log changes nothing in the run, what the driver sends and sees is what
is in the log, and the run comes to an end unless a part of it does not or the source is driven too
often for the bound. -/
theorem handling_follows {L : Language} (drive : Nat → Value → Exec (World L) Step)
    (call : Value → List Value → Exec (World L) Value) (table : Table) (c : Source (World L))
    (bound : Nat) (driver : List Value) (w : World L) :
    ∃ log s r w' l,
      session (handling (World.host drive call) table c bound) driver (w, .fresh .start) =
        (r, (w', l)) ∧
      loggedSession (handling ((World.host drive call).logged fun w => w.tokens.get?) table c.logged
        bound) driver ((w, []), .fresh .start) = (r, ((w', log), l)) ∧
      Follows table (.waits .start) log s ∧ Concludes bound driver log s r :=
  session_follows (World.lawful_host drive call) c driver .fresh w []

end Dispatch

end OneShot
