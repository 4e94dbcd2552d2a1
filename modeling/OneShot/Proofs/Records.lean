import OneShot.Proofs.Marks

/-!
# Records of the dispatch loop

A full log keeps what happens while a computation is handled together with the records that the loop
makes. An act calls for a record by what has been decided with it. The record comes next, and no
other record is made.
-/

namespace OneShot

open Protocol

/-- What goes into a full log. A record is kept with the world in which it is made. -/
inductive Entry (W : Type) where
  | act (a : Act)
  | record (n : Note) (w : W)

namespace Entry

variable {W : Type}

def act? : Entry W → Option Act
  | act a => some a
  | record .. => none

def note? : Entry W → Option Note
  | act _ => none
  | record n _ => some n

/-- The acts of a full log. -/
def acts (log : List (Entry W)) : List Act := log.filterMap act?

theorem acts_append (log log' : List (Entry W)) : acts (log ++ log') = acts log ++ acts log' :=
  List.filterMap_append

end Entry

namespace Protocol

/-! ## Records that are due -/

/-- The record of a decision that a token holds. -/
def concludedNote (action : Value) : Outcome → Note
  | .abort _ => .aborted action
  | .resume _ => .resumed action

/-- The record that a suspension of the source calls for. A handler is called without one. -/
def owedNote (table : Table) (x : Value) : Option Note :=
  match table.claim x with
  | .unclaimed => some (.forwarding x)
  | .entry entry => if entry.isCallable then none else some (.resolved x)
  | .notKey _ => none

/-- The record that an act calls for at a stage. -/
def Stage.due (table : Table) : Stage → Act → Option Note
  | .answered _, .advanced _ (.ok (.suspended x)) => owedNote table x
  | .issued action _ _, .called _ _ (.ok returned) =>
    returned.computation?.map fun _ => .driving action
  | .settles action _, .read _ record => (record.bind (·.outcome)).map (concludedNote action)
  | _, _ => none

theorem Stage.due_sent (table : Table) (s : Stage) (v : Value) : s.due table (.sent v) = none := by
  cases s <;> rfl

theorem Stage.due_gave (table : Table) (s : Stage) (sight : Sight) :
    s.due table (.gave sight) = none := by
  cases s <;> rfl

/-- A stage, and the record that is to be made before anything else happens. -/
abbrev Point := Stage × Option Note

/-- A full log leads from one point to another one. -/
inductive Recounts {W : Type} (table : Table) : Point → List (Entry W) → Point → Prop where
  | nil {p} : Recounts table p [] p
  | act {s a s₁ log p} (allowed : Allowed table s a s₁)
      (rest : Recounts table (s₁, s.due table a) log p) :
      Recounts table (s, none) (.act a :: log) p
  | record {s n w log p} (rest : Recounts table (s, none) log p) :
      Recounts table (s, some n) (.record n w :: log) p

section

variable {W : Type} {table : Table} {p p₁ p₂ : Point} {log log' : List (Entry W)}

theorem Recounts.trans (h : Recounts table p log p₁) (h' : Recounts table p₁ log' p₂) :
    Recounts table p (log ++ log') p₂ := by
  induction h with
  | nil => exact h'
  | act allowed _ ih => exact .act allowed (ih h')
  | record _ ih => exact .record (ih h')

/-- Without its records, a full log follows the protocol. -/
theorem Recounts.follows (h : Recounts table p log p₁) :
    Follows table p.1 (Entry.acts log) p₁.1 := by
  induction h with
  | nil => exact .nil
  | act allowed _ ih => exact .cons allowed ih
  | record _ ih => exact ih

end

end Protocol

/-! ## Runs with a full log -/

variable {W α β : Type}

def Exec.scribed (x : Exec W α) (entry : W → Result α → W → Entry W) :
    Exec (W × List (Entry W)) α :=
  fun p => ((x p.1).1, ((x p.1).2, p.2 ++ [entry p.1 (x p.1).1 (x p.1).2]))

/-- The services with a full log. `tokens` gives the tokens of a world. -/
def Host.scribed (host : Host W) (tokens : W → Nat → Option Token) :
    Host (W × List (Entry W)) where
  drive n v := (host.drive n v).scribed fun _ r _ => .act (.drove n v r)
  call f arguments := (host.call f arguments).scribed fun _ r _ => .act (.called f arguments r)
  issue action :=
    (host.issue action).scribed fun w r w' => .act (.issued action r (tokens w) (tokens w'))
  outcome token := (host.outcome token).scribed fun w _ _ => .act (.read token (tokens w token))
  settle tactics o := (host.settle tactics o).beside
  note n := (host.note n).scribed fun w _ _ => .record n w
  mint cause := (host.mint cause).scribed fun _ r _ => .act (.made cause r)

def Source.scribed (c : Source W) : Source (W × List (Entry W)) := fun v =>
  (c v).scribed fun _ r _ => .act (.advanced v r)

/-- A log of acts, and a full log with the same acts. -/
def SameActs (p : W × List Act) (q : W × List (Entry W)) : Prop :=
  q.1 = p.1 ∧ Entry.acts q.2 = p.2

theorem Exec.alike_scribed (x : Exec W α) (act : W → Result α → W → Act) :
    Alike SameActs (x.logged act) (x.scribed fun w r w' => .act (act w r w')) := by
  rintro ⟨w, _⟩ ⟨_, log⟩ ⟨rfl, rfl⟩
  exact ⟨rfl, rfl, Entry.acts_append _ _⟩

theorem Exec.alike_scribed_note (x : Exec W α) (n : Note) :
    Alike SameActs x.beside (x.scribed fun w _ _ => .record n w) := by
  rintro ⟨w, _⟩ ⟨_, log⟩ ⟨rfl, rfl⟩
  exact ⟨rfl, rfl, (Entry.acts_append _ _).trans (List.append_nil _)⟩

theorem Source.alike_scribed (c : Source W) (v : Value) :
    Exec.Alike SameActs (c.logged v) (c.scribed v) :=
  Exec.alike_scribed (c v) fun _ r _ => .advanced v r

theorem Host.alike_scribed (host : Host W) (tokens : W → Nat → Option Token) :
    Host.Alike SameActs (host.logged tokens) (host.scribed tokens) where
  drive n v := Exec.alike_scribed (host.drive n v) fun _ r _ => .drove n v r
  call f arguments := Exec.alike_scribed (host.call f arguments) fun _ r _ => .called f arguments r
  issue action := Exec.alike_scribed (host.issue action) fun w r w' =>
    .issued action r (tokens w) (tokens w')
  outcome token := Exec.alike_scribed (host.outcome token) fun w _ _ => .read token (tokens w token)
  note n := Exec.alike_scribed_note (host.note n) n
  mint cause := Exec.alike_scribed (host.mint cause) fun _ r _ => .made cause r

namespace Dispatch

/-! ## Parts of the loop -/

/-- The point that a part of the loop has come to. -/
def Comes (next : α → Point) : Result α → Point → Prop
  | .ok a, p => p = next a
  | .raised e, p => p = (.raises e, none)
  | .exhausted, p => p.2 = none

theorem Comes.settled {next : α → Point} (plain : ∀ a, (next a).2 = none) {r : Result α}
    {p : Point} (comes : Comes next r p) : p.2 = none := by
  cases r with
  | ok a => exact (congrArg Prod.snd comes).trans (plain a)
  | raised e => exact congrArg Prod.snd comes
  | exhausted => exact comes

/-- The run adds to a full log what leads on from a point. -/
def Scribes (table : Table) (p : Point) (x : Exec (W × List (Entry W)) α) (next : α → Point) :
    Prop :=
  ∀ w log, ∃ entries p₁, (x (w, log)).2.2 = log ++ entries ∧ Recounts table p entries p₁ ∧
    Comes next (x (w, log)).1 p₁

def Decision.point (d : Decision) : Point := (d.stage, none)

section

variable {table : Table} {p : Point} {s : Stage}

theorem scribes_pure (next : α → Point) (a : α) :
    Scribes (W := W) table (next a) (pure a) next :=
  fun _ log => ⟨[], _, (List.append_nil log).symm, .nil, rfl⟩

theorem scribes_raise (e : Error) (next : α → Point) :
    Scribes (W := W) table (.raises e, none) (Exec.raise e) next :=
  fun _ log => ⟨[], _, (List.append_nil log).symm, .nil, rfl⟩

theorem scribes_bind {x : Exec (W × List (Entry W)) α} {f : α → Exec (W × List (Entry W)) β}
    (mid : α → Point) {next : β → Point} (hx : Scribes table p x mid)
    (hf : ∀ a, Scribes table (mid a) (f a) next) : Scribes table p (x >>= f) next := by
  intro w log
  obtain ⟨entries, p₁, hlog, recounts, comes⟩ := hx w log
  simp only [Bind.bind, Exec.bind]
  rcases hrun : x (w, log) with ⟨a | e | -, w₁, log₁⟩ <;> rw [hrun] at hlog comes
  · obtain rfl : log₁ = log ++ entries := hlog
    obtain rfl : p₁ = mid a := comes
    obtain ⟨entries', p₂, hlog', recounts', comes'⟩ := hf a w₁ (log ++ entries)
    exact ⟨entries ++ entries', p₂, hlog'.trans (List.append_assoc _ _ _),
      recounts.trans recounts', comes'⟩
  · exact ⟨entries, p₁, hlog, recounts, comes⟩
  · exact ⟨entries, p₁, hlog, recounts, comes⟩

theorem scribes_act {x : Exec W α} (act : W → Result α → W → Act) {next : α → Point}
    (allowed : ∀ w, ∃ s₁, Allowed table s (act w (x w).1 (x w).2) s₁ ∧
      Comes next (x w).1 (s₁, s.due table (act w (x w).1 (x w).2))) :
    Scribes table (s, none) (x.scribed fun w r w' => .act (act w r w')) next := by
  intro w log
  obtain ⟨s₁, allowed, comes⟩ := allowed w
  exact ⟨_, _, rfl, .act allowed .nil, comes⟩

variable {host : Host W} {tokens : W → Nat → Option Token} (lawful : host.Lawful tokens)

include lawful

theorem scribes_note (s : Stage) (n : Note) :
    Scribes table (s, some n) ((host.scribed tokens).note n) fun _ => (s, none) := by
  intro w log
  obtain ⟨w', noted⟩ := lawful.notes n w
  refine ⟨[.record n w], _, rfl, .record .nil, ?_⟩
  simp only [Host.scribed, Exec.scribed, noted]
  rfl

theorem scribes_noted (n : Note) (d : Decision) :
    Scribes table (d.stage, some n) (do (host.scribed tokens).note n; return d)
      Decision.point :=
  scribes_bind _ (scribes_note lawful d.stage n) fun _ => scribes_pure Decision.point d

theorem scribes_fail (cause : Cause Value) (next : α → Point) :
    Scribes table (.refuses cause, none) ((host.scribed tokens).fail cause) next := by
  refine scribes_bind (fun e => (.raises e, none)) (scribes_act (fun _ r _ => .made cause r)
    fun w => ?_) fun e => scribes_raise e next
  obtain ⟨e, w', h, hcause⟩ := lawful.mints cause w
  rw [h]
  exact ⟨_, .refuse hcause, rfl⟩

theorem scribes_conclude (action : Value) (token : Nat) :
    Scribes table (.settles action token, none) (conclude (host.scribed tokens) action token)
      Decision.point := by
  refine scribes_bind (fun o => (.concluded action o, o.map (concludedNote action)))
    (scribes_act (fun w _ _ => .read token (tokens w token)) fun w => ?_) fun o => ?_
  · rw [lawful.reads]
    exact ⟨_, .conclude, rfl⟩
  · rcases o with _ | ⟨v | v⟩
    · exact scribes_fail lawful _ _
    · exact scribes_noted lawful _ (.proceed v)
    · exact scribes_noted lawful _ (.stop (.complete v))

theorem scribes_runBody (n : Nat) (action : Value) (token : Nat) (v : Value) :
    Scribes table (.runs n action token v, none) (runBody (host.scribed tokens) n action token v)
      Decision.point := by
  refine scribes_bind (fun step => (.drove n action token step, none))
    (scribes_act (fun _ r _ => .drove n v r) fun w => ⟨_, .drive, ?_⟩) fun step => ?_
  · rcases (host.drive n v w).1 with step | e | - <;> rfl
  cases step with
  | suspended x => exact scribes_pure Decision.point _
  | completed r => exact scribes_conclude lawful action token

theorem scribes_callHandler (handler action : Value) :
    Scribes table (.claimed action handler, none)
      (callHandler (host.scribed tokens) handler action (parametersOf action))
      Decision.point := by
  refine scribes_bind (fun token => (.issued action handler token, none))
    (scribes_act (fun w r w' => .issued action r (tokens w) (tokens w')) fun w => ?_)
    fun token => ?_
  · obtain ⟨token, w', t, h, fresh, added, own, pending⟩ := lawful.issues action w
    rw [h]
    exact ⟨_, .issue fresh added own pending, rfl⟩
  refine scribes_bind (fun returned => (.called action token returned,
      returned.computation?.map fun _ => .driving action))
    (scribes_act (fun _ r _ => .called handler (parametersOf action ++ [.tactics token]) r)
      fun w => ⟨_, .call, ?_⟩) fun returned => ?_
  · generalize (host.call handler (parametersOf action ++ [.tactics token]) w).1 = r
    cases r <;> rfl
  unfold Stage.called
  cases returned.computation? with
  | none => exact scribes_conclude lawful action token
  | some n =>
    exact scribes_bind _ (scribes_note lawful _ _)
      fun _ => scribes_runBody lawful n action token .nil

theorem scribes_resolve (x : Value) :
    Scribes table (.owing table x, owedNote table x) (resolve (host.scribed tokens) table x)
      Decision.point := by
  unfold Stage.owing owedNote resolve
  cases table.claim x with
  | notKey name => exact scribes_fail lawful _ _
  | unclaimed => exact scribes_noted lawful _ (.stop (.suspend x .forwarding))
  | entry entry =>
    by_cases callable : entry.isCallable
    · simp only [if_pos callable]
      exact scribes_callHandler lawful entry x
    · simp only [if_neg callable]
      exact scribes_noted lawful _ (.proceed entry)

theorem scribes_takeUp (phase : Phase) (v : Value) :
    Scribes table (.taken v phase, none) (takeUp (host.scribed tokens) phase v)
      Decision.point := by
  cases phase with
  | start => exact scribes_pure Decision.point (.proceed .nil)
  | forwarding => exact scribes_pure Decision.point (.proceed v)
  | handlerBody n action token => exact scribes_runBody lawful n action token v

theorem scribes_proceed (c : Source W) (bound : Nat) (d : Decision) :
    Scribes table d.point (proceed (host.scribed tokens) table c.scribed bound d)
      fun move => (moved move, none) := by
  induction bound generalizing d with
  | zero =>
    cases d with
    | stop move =>
      simp only [proceed]
      exact scribes_pure (fun move => (moved move, none)) move
    | proceed v => exact fun _ log => ⟨[], _, (List.append_nil log).symm, .nil, rfl⟩
  | succ bound ih =>
    cases d with
    | stop move =>
      simp only [proceed]
      exact scribes_pure (fun move => (moved move, none)) move
    | proceed v =>
      simp only [proceed]
      refine scribes_bind
        (fun step => (.advanced table step, (Stage.answered v).due table (.advanced v (.ok step))))
        (scribes_act (fun _ r _ => .advanced v r) fun w => ⟨_, .advance, ?_⟩) fun step => ?_
      · rcases (c v w).1 with step | e | - <;> rfl
      refine scribes_bind Decision.point ?_ ih
      cases step with
      | suspended x => exact scribes_resolve lawful x
      | completed r => exact scribes_pure Decision.point (.stop (.complete r))

theorem scribes_advance (c : Source W) (bound : Nat) (phase : Phase) (v : Value) :
    Scribes table (.taken v phase, none)
      (advance (host.scribed tokens) table c.scribed bound phase v)
      fun move => (moved move, none) :=
  scribes_bind Decision.point (scribes_takeUp lawful phase v) (scribes_proceed lawful c bound)

theorem scribes_seal {S : Type} (e : Error) (next : Step → Point) :
    Scribes table (.raises e, none)
      (Life.seal (host.scribed tokens).mint (.error e : Except Error (Move S))) next := by
  unfold Life.seal
  by_cases stop : e.kind = .stopIteration
  · simp only [if_pos stop]
    refine scribes_bind (fun e' => (.raises e', none))
      (scribes_act (fun _ r _ => .made (.refused .endOfIteration) r) fun w => ?_)
      fun e' => scribes_raise e' next
    obtain ⟨e', w', h, hcause⟩ := lawful.mints (.refused .endOfIteration) w
    rw [h]
    exact ⟨_, .convert stop hcause, rfl⟩
  · simp only [if_neg stop]
    exact scribes_raise e next

end

/-! ## One drive -/

section

variable {table : Table} {bound : Nat} {host : Host W} {tokens : W → Nat → Option Token}
  (lawful : host.Lawful tokens) (c : Source W)

include lawful

theorem entered_recounts {l : Life Phase} {v u : Value} {phase : Phase}
    (entry : l.enters? v = some (phase, u)) (w : W) (log : List (Entry W)) :
    ∃ entries s,
      (handling (host.scribed tokens) table c.scribed bound v ((w, log), l)).2.1.2 =
        log ++ entries ∧ Recounts table (.taken u phase, none) entries (s, none) := by
  obtain ⟨entries, ⟨s, n⟩, hlog, recounts, comes⟩ :=
    @scribes_advance W table host tokens lawful c bound phase u w log
  simp only [handling, Source.ofBody_entered entry, enter_apply]
  rcases hadvance : advance (host.scribed tokens) table c.scribed bound phase u (w, log) with
    ⟨r, w₁, log₁⟩
  rw [hadvance] at hlog comes
  obtain rfl : log₁ = log ++ entries := hlog
  obtain rfl : n = none := comes.settled fun _ => rfl
  cases r with
  | ok move => exact ⟨entries, s, rfl, recounts⟩
  | raised e =>
    obtain rfl : s = .raises e := congrArg Prod.fst comes
    have sealed : Scribes table (.raises e, none)
        (Life.seal (host.scribed tokens).mint (.error e : Except Error (Move Phase)))
        fun _ => (.stuck, none) := scribes_seal lawful e _
    obtain ⟨entries', ⟨s', n'⟩, hlog', recounts', comes'⟩ := sealed w₁ (log ++ entries)
    obtain rfl : n' = none := comes'.settled fun _ => rfl
    exact ⟨entries ++ entries', s', hlog'.trans (List.append_assoc _ _ _),
      recounts.trans recounts'⟩
  | exhausted => exact ⟨entries, s, rfl, recounts⟩

/-- A drive adds to the full log what the protocol and its records allow. The log changes nothing in
the run. -/
theorem drive_recounts {l : Life Phase} {s : Stage} (between : Between l s) (v : Value) (w : W)
    (log : List (Entry W)) :
    ∃ entries s₁ s₂ r w' l', handling host table c bound v (w, l) = (r, (w', l')) ∧
      handling (host.scribed tokens) table c.scribed bound v ((w, log), l) =
        (r, ((w', log ++ entries), l')) ∧
      Allowed table s (.sent v) s₁ ∧ (∀ a ∈ Entry.acts entries, a.Inner) ∧
      Recounts table (s₁, none) entries (s₂, none) ∧
      Given table bound (Entry.acts entries) s₂ l' r := by
  obtain ⟨acts, s₁, s₂, r, w', l', plain, logged, sent, inner, follows, given⟩ :=
    @drive_follows W table bound host tokens lawful c l s between v w (Entry.acts log)
  have alike := alike_handling (Host.alike_scribed host tokens) (Source.alike_scribed c) table bound
    v ((w, Entry.acts log), l) ((w, log), l) ⟨⟨rfl, rfl⟩, rfl⟩
  obtain ⟨entries, s₃, hlog, recounts⟩ : ∃ entries s₃,
      (handling (host.scribed tokens) table c.scribed bound v ((w, log), l)).2.1.2 =
        log ++ entries ∧ Recounts table (s₁, none) entries (s₃, none) := by
    cases between with
    | fresh =>
      cases sent
      exact entered_recounts lawful c (Life.enters?_fresh .start v) w log
    | suspended =>
      cases sent
      exact entered_recounts lawful c (Life.enters?_suspended _ v) w log
    | finished => exact ⟨[], s₁, (List.append_nil log).symm, .nil⟩
  rw [logged] at alike
  rcases hscribed : handling (host.scribed tokens) table c.scribed bound v ((w, log), l) with
    ⟨r', ⟨w₁, log₁⟩, l₁⟩
  rw [hscribed] at alike hlog
  obtain rfl : log₁ = log ++ entries := hlog
  obtain ⟨hresult, ⟨hworld, hacts⟩, hlife⟩ := alike
  simp only [Entry.acts_append] at hresult hworld hacts hlife
  subst hresult hworld hlife
  obtain rfl := List.append_cancel_left hacts
  -- A log has one reading, so the records lead to the stage that the acts lead to.
  obtain rfl := recounts.follows.unique follows
  exact ⟨entries, s₁, _, _, _, _, plain, rfl, sent, inner, recounts, given⟩

end

end Dispatch

end OneShot
