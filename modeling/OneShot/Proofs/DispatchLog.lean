import OneShot.Proofs.Past
import OneShot.Proofs.Records
import OneShot.Proofs.Stack

/-!
# The dispatch log tells the run

Each suspension of a source gets one record of what is decided about it, in the order of the
suspensions. The full log tells where a record stands among the drives of the source, the calls of
entries and the drives of their computations.
-/

namespace OneShot

open Protocol
open Dispatch (Phase parametersOf)

/-! ## What a record is about -/

/-- The action that a record of a decision is about. -/
def Note.decides? : Note → Option Value
  | .forwarding x | .resolved x | .aborted x | .resumed x => some x
  | _ => none

namespace Entry

variable {W : Type}

/-- The value that the source suspends with. -/
def suspended? : Entry W → Option Value
  | act (.advanced _ (.ok (.suspended x))) => some x
  | _ => none

def decided? (e : Entry W) : Option Value := e.note?.bind Note.decides?

/-- No record of the loop comes there any more. -/
def Silent (log : List (Entry W)) : Prop := ∀ e ∈ log, e.note? = none

end Entry

namespace Protocol

variable {W : Type}

/-! ## What follows a suspension -/

/-- Next, the source is driven with a value, unless the run breaks off. -/
def Advances (v : Value) (log : List (Entry W)) : Prop :=
  log = [] ∨ ∃ r rest, log = .act (.advanced v r) :: rest

/-- What follows once the handler of an action and its computation have ended. -/
inductive Concluded (x : Value) : List (Entry W) → Prop where
  | resumed {token record v w rest} (decided : record.bind (·.outcome) = some (.resume v))
      (next : Advances v rest) :
      Concluded x (.act (.read token record) :: .record (.resumed x) w :: rest)
  | aborted {token record v w rest} (decided : record.bind (·.outcome) = some (.abort v))
      (silent : Entry.Silent rest) :
      Concluded x (.act (.read token record) :: .record (.aborted x) w ::
        .act (.gave (.ok (.completed v))) :: rest)
  | unsettled {token record rest} (pending : record.bind (·.outcome) = none)
      (silent : Entry.Silent rest) : Concluded x (.act (.read token record) :: rest)

/-- What follows when the handler of an action has returned a computation, from the first drive of
that on. Its suspensions have no records. -/
inductive Unrolls (n : Nat) (x : Value) : Value → List (Entry W) → Prop where
  /-- This drive does not come to an end. -/
  | stuck {v} : Unrolls n x v [.act (.drove n v .exhausted)]
  /-- The driver sends nothing more. -/
  | left {v y} : Unrolls n x v
      [.act (.drove n v (.ok (.suspended y))), .act (.gave (.ok (.suspended y)))]
  | yields {v y u rest} (next : Unrolls n x u rest) :
      Unrolls n x v (.act (.drove n v (.ok (.suspended y))) ::
        .act (.gave (.ok (.suspended y))) :: .act (.sent u) :: rest)
  | completes {v r rest} (next : Concluded x rest) :
      Unrolls n x v (.act (.drove n v (.ok (.completed r))) :: rest)
  | raises {v e rest} (silent : Entry.Silent rest) :
      Unrolls n x v (.act (.drove n v (.raised e)) :: rest)

/-- What follows the call of the handler of an action. -/
inductive Called (x : Value) : Result Value → List (Entry W) → Prop where
  | plain {returned rest} (none : returned.computation? = none) (next : Concluded x rest) :
      Called x (.ok returned) rest
  | driving {n w rest} (next : Unrolls n x .nil rest) :
      Called x (.ok (.computation n)) (.record (.driving x) w :: rest)
  | raises {e rest} (silent : Entry.Silent rest) : Called x (.raised e) rest
  /-- The call does not come to an end. -/
  | stuck : Called x .exhausted []

/-- What follows a suspension of the source. -/
inductive Decided (table : Table) (x : Value) : List (Entry W) → Prop where
  | forwarded {w rest} (claim : table.claim x = .unclaimed)
      (next : rest = [] ∨ ∃ v rest', rest = .act (.sent v) :: rest' ∧ Advances v rest') :
      Decided table x
        (.record (.forwarding x) w :: .act (.gave (.ok (.suspended x))) :: rest)
  | resolved {entry w rest} (claim : table.claim x = .entry entry)
      (value : entry.isCallable = false) (next : Advances entry rest) :
      Decided table x (.record (.resolved x) w :: rest)
  | called {handler token before after r rest} (claim : table.claim x = .entry handler)
      (callable : handler.isCallable = true) (next : Called x r rest) :
      Decided table x (.act (.issued x (.ok token) before after) ::
        .act (.called handler (parametersOf x ++ [.tactics token]) r) :: rest)
  /-- A name in the action cannot be looked up. -/
  | refused {name rest} (claim : table.claim x = .notKey name) (silent : Entry.Silent rest) :
      Decided table x rest

/-- The act with which a decision about an action has been taken, right before its record. -/
inductive Prompts (table : Table) (x : Value) : Act → Note → Prop where
  | forwarding {v} (claim : table.claim x = .unclaimed) :
      Prompts table x (.advanced v (.ok (.suspended x))) (.forwarding x)
  | resolved {v entry} (claim : table.claim x = .entry entry)
      (value : entry.isCallable = false) :
      Prompts table x (.advanced v (.ok (.suspended x))) (.resolved x)
  | driving {handler arguments n} :
      Prompts table x (.called handler arguments (.ok (.computation n))) (.driving x)
  | aborted {token record v} (decided : record.bind (·.outcome) = some (.abort v)) :
      Prompts table x (.read token record) (.aborted x)
  | resumed {token record v} (decided : record.bind (·.outcome) = some (.resume v)) :
      Prompts table x (.read token record) (.resumed x)

section

variable {table : Table} {p q m : Point} {s s₁ : Stage} {a : Act} {n : Note} {w : W}
  {log log' : List (Entry W)}

theorem recounts_append :
    Recounts table p (log ++ log') q ↔ ∃ m, Recounts table p log m ∧ Recounts table m log' q := by
  constructor
  · intro h
    induction log generalizing p with
    | nil => exact ⟨p, .nil, h⟩
    | cons e log ih =>
      cases h with
      | act allowed rest =>
        obtain ⟨m, first, last⟩ := ih rest
        exact ⟨m, .act allowed first, last⟩
      | record rest =>
        obtain ⟨m, first, last⟩ := ih rest
        exact ⟨m, .record first, last⟩
  · rintro ⟨m, first, last⟩
    exact first.trans last

/-! ## The end of a loop -/

/-- Nothing is decided from here on. -/
def Stage.Ending : Stage → Prop
  | .refuses _ | .returns _ | .raises _ | .over | .stuck => True
  | _ => False

theorem Stage.Ending.step (ending : s.Ending) (allowed : Allowed table s a s₁) :
    s₁.Ending ∧ s.due table a = none ∧ (Entry.act a : Entry W).suspended? = none := by
  cases allowed with
  | idle | refuse | convert | complete | raise => exact ⟨trivial, rfl, rfl⟩
  | _ => exact ending.elim

theorem Stage.Ending.silent (ending : s.Ending) (recounts : Recounts table (s, none) log q) :
    Entry.Silent log ∧ log.filterMap Entry.suspended? = [] := by
  induction log generalizing s with
  | nil => exact ⟨List.forall_mem_nil _, rfl⟩
  | cons e log ih =>
    cases recounts with
    | @act _ a s₁ _ _ allowed rest =>
      obtain ⟨ending₁, due, plain⟩ := ending.step (W := W) allowed
      rw [due] at rest
      obtain ⟨silent, none⟩ := ih ending₁ rest
      exact ⟨List.forall_mem_cons.mpr ⟨rfl, silent⟩, by rw [List.filterMap_cons, plain, none]⟩

/-! ## The order of the records -/

/-- The action that a stage is about, if nothing has been decided about it. -/
def Stage.handled? : Stage → Option Value
  | .claimed x _ | .issued x _ _ | .runs _ x _ _ | .settles x _ => some x
  | .yields _ (.handlerBody _ x _) | .waits (.handlerBody _ x _) => some x
  | _ => none

/-- The action that lacks its decision or the record of it. -/
def missing (p : Point) : List Value := (p.2.bind Note.decides?).toList ++ p.1.handled?.toList

theorem missing_owing (table : Table) (x : Value) :
    missing (.owing table x, owedNote table x) = [x] ∨
      (Stage.owing table x).Ending ∧ owedNote table x = none := by
  unfold Stage.owing owedNote
  cases table.claim x with
  | unclaimed => exact .inl rfl
  | notKey name => exact .inr ⟨trivial, rfl⟩
  | entry entry =>
    by_cases callable : entry.isCallable
    · simp only [if_pos callable]
      exact .inl rfl
    · simp only [if_neg callable]
      exact .inl rfl

theorem missing_step (allowed : Allowed table s a s₁) :
    missing (s, none) ++ (Entry.act a : Entry W).suspended?.toList = missing (s₁, s.due table a) ∨
      s₁.Ending ∧ s.due table a = none := by
  cases allowed with
  | @take phase v => cases phase <;> exact .inl rfl
  | idle | refuse | convert | complete | raise => exact .inr ⟨trivial, rfl⟩
  | @advance v r =>
    rcases r with ⟨x | _⟩ | _ | _
    · exact (missing_owing table x).imp_left Eq.symm
    all_goals exact .inr ⟨trivial, rfl⟩
  | issue => exact .inl rfl
  | @call action handler token r =>
    rcases r with returned | _ | _
    · simp only [Stage.onward, Stage.called, Stage.due]
      cases returned.computation? <;> exact .inl rfl
    all_goals exact .inr ⟨trivial, rfl⟩
  | @drive n action token v r =>
    rcases r with ⟨_ | _⟩ | _ | _
    · exact .inl rfl
    · exact .inl rfl
    all_goals exact .inr ⟨trivial, rfl⟩
  | @conclude action token record =>
    simp only [Stage.due]
    rcases record.bind (·.outcome) with _ | ⟨_ | _⟩
    · exact .inr ⟨trivial, rfl⟩
    all_goals exact .inl rfl
  | @suspend x phase => cases phase <;> exact .inl rfl

theorem missing_length (allowed : Allowed table s a s₁) :
    (missing (s, none) ++ (Entry.act a : Entry W).suspended?.toList).length ≤ 1 := by
  cases allowed with
  | @advance v r =>
    rcases r with ⟨x | _⟩ | _ | _
    · exact Nat.le_refl 1
    all_goals exact Nat.zero_le 1
  | @take phase v => cases phase <;> simp [missing, Stage.handled?, Entry.suspended?]
  | @suspend x phase => cases phase <;> simp [missing, Stage.handled?, Entry.suspended?]
  | _ => simp [missing, Stage.handled?, Entry.suspended?]

theorem filterMap_cons_toList {α β : Type} (f : α → Option β) (a : α) (l : List α) :
    (a :: l).filterMap f = (f a).toList ++ l.filterMap f := by
  cases h : f a <;> simp [h]

/-- The decisions have their records in the order of the suspensions. Only the last suspension can
be without one. -/
theorem records_in_order (recounts : Recounts table p log q) (done : q.2 = none) :
    ∃ left : List Value, left.length ≤ 1 ∧
      missing p ++ log.filterMap Entry.suspended? = log.filterMap Entry.decided? ++ left := by
  induction recounts with
  | @nil p =>
    refine ⟨missing p, ?_, by simp⟩
    rw [missing, done]
    cases p.1.handled? <;> simp
  | @act s a s₁ log q allowed rest ih =>
    obtain ⟨left, short, ordered⟩ := ih done
    rw [filterMap_cons_toList, filterMap_cons_toList, ← List.append_assoc]
    rcases missing_step (W := W) allowed with same | ⟨ending, due⟩
    · exact ⟨left, short, by rw [same, ordered]; rfl⟩
    · rw [due] at rest
      obtain ⟨silent, none⟩ := ending.silent rest
      have undecided : log.filterMap Entry.decided? = [] :=
        List.filterMap_eq_nil_iff.mpr fun e he => by rw [Entry.decided?, silent e he]; rfl
      refine ⟨_, missing_length (W := W) allowed, ?_⟩
      rw [none, undecided, List.append_nil]
      rfl
  | @record s n w log q rest ih =>
    obtain ⟨left, short, ordered⟩ := ih done
    refine ⟨left, short, ?_⟩
    rw [filterMap_cons_toList, filterMap_cons_toList, List.append_assoc, ← ordered]
    simp only [missing, Entry.decided?, Entry.note?, Entry.suspended?, Option.bind_some,
      Option.bind_none, Option.toList_none, List.nil_append, List.append_assoc]

/-! ## What follows a suspension -/

variable {x v : Value} {token : Nat}

theorem advances_of_recounts (recounts : Recounts table (.answered v, none) log q) :
    Advances v log := by
  cases recounts with
  | nil => exact .inl rfl
  | act allowed _ =>
    cases allowed
    exact .inr ⟨_, _, rfl⟩

theorem concluded_of_recounts (recounts : Recounts table (.settles x token, none) log (s, none))
    (idle : s.Idle) : Concluded x log := by
  cases recounts with
  | nil => simp [Stage.Idle, Stage.Rests] at idle
  | act allowed rest =>
    cases allowed with
    | @conclude _ _ record =>
      simp only [Stage.due] at rest
      cases decided : record.bind (·.outcome) with
      | none =>
        rw [decided] at rest
        exact .unsettled decided (Stage.Ending.silent (s := .refuses _) trivial rest).1
      | some o =>
        rw [decided] at rest
        cases rest with
        | record rest =>
          cases o with
          | resume v => exact .resumed decided (advances_of_recounts rest)
          | abort v =>
            cases rest with
            | nil => simp [Stage.Idle, Stage.Rests, Stage.concluded] at idle
            | act allowed rest =>
              cases allowed
              exact .aborted decided (Stage.Ending.silent (s := .over) trivial rest).1

theorem unrolls_of_recounts {n : Nat}
    (recounts : Recounts table (.runs n x token v, none) log (s, none)) (idle : s.Idle) :
    Unrolls n x v log := by
  -- A suspension of the computation takes three acts, so the induction is on the length of the log.
  induction h : log.length using Nat.strongRecOn generalizing v log with
  | ind length ih =>
    cases recounts with
    | nil => simp [Stage.Idle, Stage.Rests] at idle
    | act allowed rest =>
      cases allowed with
      | @drive _ _ _ _ r =>
        cases r with
        | raised e => exact .raises (Stage.Ending.silent (s := .raises e) trivial rest).1
        | exhausted =>
          cases rest with
          | nil => exact .stuck
          | act allowed _ => cases allowed
        | ok step =>
          cases step with
          | completed r => exact .completes (concluded_of_recounts rest idle)
          | suspended y =>
            cases rest with
            | nil => simp [Stage.onward, Stage.drove, Stage.Idle, Stage.Rests] at idle
            | act allowed rest =>
              cases allowed with
              | suspend =>
                cases rest with
                | nil => exact .left
                | act allowed rest =>
                  cases allowed with
                  | take =>
                    refine .yields (ih _ ?_ rest rfl)
                    rw [← h]
                    simp only [List.length_cons]
                    omega

theorem called_of_recounts {r : Result Value} {f : Value} {arguments : List Value}
    (recounts : Recounts table (.onward (.called x token) r,
      Stage.due table (.issued x f token) (.called f arguments r)) log (s, none)) (idle : s.Idle) :
    Called x r log := by
  cases r with
  | raised e => exact .raises (Stage.Ending.silent (s := .raises e) trivial recounts).1
  | exhausted =>
    cases recounts with
    | nil => exact .stuck
    | act allowed _ => cases allowed
  | ok returned =>
    simp only [Stage.onward, Stage.called, Stage.due] at recounts
    cases hn : returned.computation? with
    | none =>
      rw [hn] at recounts
      exact .plain hn (concluded_of_recounts recounts idle)
    | some n =>
      obtain rfl := Value.eq_of_computation? hn
      cases recounts with
      | record rest => exact .driving (unrolls_of_recounts rest idle)

theorem decided_of_recounts
    (recounts : Recounts table (.owing table x, owedNote table x) log (s, none)) (idle : s.Idle) :
    Decided table x log := by
  unfold Stage.owing owedNote at recounts
  -- What the table says of the action leaves one way for the log to go on.
  cases claim : table.claim x with
  | notKey name =>
    simp only [claim] at recounts
    exact .refused claim (Stage.Ending.silent (s := .refuses _) trivial recounts).1
  | unclaimed =>
    simp only [claim] at recounts
    cases recounts with
    | record rest =>
      cases rest with
      | nil => simp [Stage.Idle, Stage.Rests] at idle
      | act allowed rest =>
        cases allowed with
        | suspend =>
          refine .forwarded claim ?_
          cases rest with
          | nil => exact .inl rfl
          | act allowed rest =>
            cases allowed with
            | take => exact .inr ⟨_, _, rfl, advances_of_recounts rest⟩
  | entry entry =>
    simp only [claim] at recounts
    cases callable : entry.isCallable with
    | false =>
      simp only [callable, Bool.false_eq_true, if_false] at recounts
      cases recounts with
      | record rest => exact .resolved claim callable (advances_of_recounts rest)
    | true =>
      simp only [callable, if_true] at recounts
      cases recounts with
      | nil => simp [Stage.Idle, Stage.Rests] at idle
      | act allowed rest =>
        cases allowed with
        | issue =>
          cases rest with
          | nil => simp [Stage.Idle, Stage.Rests] at idle
          | act allowed rest =>
            cases allowed with
            | call => exact .called claim callable (called_of_recounts rest idle)

/-! ## What comes before a record -/

theorem Recounts.eq_of_nil (recounts : Recounts (W := W) table p [] q) : p = q := by
  cases recounts
  rfl

theorem last_of_due (recounts : Recounts table p log (s₁, some n)) :
    log = [] ∨ ∃ earlier a s, log = earlier ++ [.act a] ∧
      Recounts table p earlier (s, none) ∧ Allowed table s a s₁ ∧ s.due table a = some n := by
  generalize hq : ((s₁, some n) : Point) = q at recounts
  induction recounts with
  | nil => exact .inl rfl
  | @act s a s₂ log q allowed rest ih =>
    rcases ih hq with rfl | ⟨earlier, a', s', rfl, recounts, last⟩
    · obtain ⟨rfl, due⟩ := Prod.mk.inj (hq.trans rest.eq_of_nil.symm)
      exact .inr ⟨[], a, s, rfl, .nil, allowed, due.symm⟩
    · exact .inr ⟨.act a :: earlier, a', s', rfl, .act allowed recounts, last⟩
  | @record s n' w log q rest ih =>
    rcases ih hq with rfl | ⟨earlier, a', s', rfl, recounts, last⟩
    · cases hq.trans rest.eq_of_nil.symm
    · exact .inr ⟨.record n' w :: earlier, a', s', rfl, .record recounts, last⟩

theorem prompts_of_due {acts : List Act} (past : Past table acts s) (allowed : Allowed table s a s₁)
    (due : s.due table a = some n) :
    ∃ x, Prompts table x a n ∧ ∃ first v last,
      acts ++ [a] = first ++ .advanced v (.ok (.suspended x)) :: last ∧
        ∀ b ∈ last, b.isAdvanced = false := by
  -- Only three acts call for a record: a suspension of the source, a call that returns a
  -- computation, and a look at a token.
  cases allowed with
  | @advance v r =>
    rcases r with ⟨x | _⟩ | _ | _
    · refine ⟨x, ?_, acts, v, [], rfl, List.forall_mem_nil _⟩
      simp only [Stage.due, owedNote] at due
      cases claim : table.claim x with
      | notKey name =>
        simp only [claim] at due
        cases due
      | unclaimed =>
        simp only [claim, Option.some.injEq] at due
        exact due ▸ .forwarding claim
      | entry entry =>
        simp only [claim] at due
        cases callable : entry.isCallable with
        | true => simp [callable] at due
        | false =>
          simp only [callable, Bool.false_eq_true, if_false, Option.some.injEq] at due
          exact due ▸ .resolved claim callable
    all_goals cases due
  | @call action f token r =>
    rcases r with returned | _ | _
    · have still := (handles_of_called past (.ok returned)).still
      cases hn : returned.computation? with
      | none => simp [Stage.due, hn] at due
      | some i =>
        obtain rfl := Value.eq_of_computation? hn
        cases due
        exact ⟨action, .driving, still⟩
    all_goals cases due
  | @conclude action token record =>
    obtain ⟨f, returned, exchange, handles⟩ := past
    obtain ⟨first, v, last, rfl, still⟩ := handles.still
    refine ⟨action, ?_, first, v, last ++ [.read token record], ?_, ?_⟩
    · simp only [Stage.due, Option.map_eq_some_iff] at due
      obtain ⟨o, decided, rfl⟩ := due
      cases o with
      | abort v => exact .aborted decided
      | resume v => exact .resumed decided
    · rw [List.append_assoc, List.cons_append]
    · intro b hb
      rcases List.mem_append.mp hb with hb | hb
      · exact still b hb
      · rw [List.mem_singleton.mp hb]
        rfl
  | _ => cases due

end

end Protocol

/-! ## Sessions with a full log -/

variable {W X : Type}

def inWorld (change : W → W) (p : W × X) : W × X := (change p.1, p.2)

def write (a : Act) : Exec ((W × List (Entry W)) × X) Unit :=
  Exec.modify fun p => ((p.1.1, p.1.2 ++ [.act a]), p.2)

/-- The computation, with what its driver sends and sees in the log. -/
def Source.watched (source : Source ((W × List (Entry W)) × X)) :
    Source ((W × List (Entry W)) × X) := fun v => do
  write (.sent v)
  let sight ← (source v).look
  write (.gave sight)
  match sight with
  | .ok step => return step
  | .error e => Exec.raise e

theorem write_apply (a : Act) (w : W) (log : List (Entry W)) (x : X) :
    write a ((w, log), x) = (.ok (), ((w, log ++ [.act a]), x)) := rfl

section

variable {source : Source ((W × List (Entry W)) × X)} {v : Value} {w w₁ : W}
  {log log₁ : List (Entry W)} {x x₁ : X}

theorem watched_of {sight : Sight}
    (drive : source v ((w, log ++ [.act (.sent v)]), x) = (.of sight, ((w₁, log₁), x₁))) :
    source.watched v ((w, log), x) = (.of sight, ((w₁, log₁ ++ [.act (.gave sight)]), x₁)) := by
  rw [Source.watched, Exec.bind_ok (write_apply _ w log x),
    Exec.bind_ok (Exec.look_eq.mpr ⟨sight, rfl, drive⟩), Exec.bind_ok (write_apply _ w₁ log₁ x₁)]
  cases sight <;> rfl

theorem watched_exhausted {p : (W × List (Entry W)) × X}
    (drive : source v ((w, log ++ [.act (.sent v)]), x) = (.exhausted, p)) :
    source.watched v ((w, log), x) = (.exhausted, p) := by
  rw [Source.watched, Exec.bind_ok (write_apply _ w log x)]
  simp only [Exec.look, Exec.rescue, Bind.bind, Exec.bind, drive]

end

namespace Dispatch

section

variable {table : Table} {bound : Nat} {host : Host W} {tokens : W → Nat → Option Token}
  (lawful : host.Lawful tokens) (c : Source W)

include lawful

/-- However the driver goes on, also if it changes the world between its drives. -/
theorem turns_recount (turns : List (Turn W)) {l : Life Phase} {s : Stage} (between : Between l s)
    (w : W) (log : List (Entry W)) :
    ∃ entries s' r w' l',
      takeTurns (fun _ => handling host table c bound) inWorld turns (w, l) = (r, (w', l')) ∧
      takeTurns (fun _ => (handling (host.scribed tokens) table c.scribed bound).watched)
        (fun change => inWorld (inWorld change)) turns ((w, log), l) =
          (r, ((w', log ++ entries), l')) ∧
      Recounts table (s, none) entries (s', none) ∧
      Concludes bound (turns.map (·.value)) (Entry.acts entries) s' r := by
  -- Between two drives the loop is between two stages. Each drive adds its part of the log.
  induction turns generalizing l s w log with
  | nil =>
    refine ⟨[], s, .ok [], w, l, rfl, ?_, .nil, between.rests, rfl, rfl⟩
    rw [List.append_nil]
    rfl
  | cons t turns ih =>
    obtain ⟨entries, s₁, s₂, r, w₁, l₁, plain, scribed, sent, inner, recounts, given⟩ :=
      @drive_recounts W table bound host tokens lawful c l s between t.value (t.change w)
        (log ++ [.act (.sent t.value)])
    have start : Recounts table (s, none) (.act (.sent t.value) :: entries) (s₂, none) :=
      .act sent (Stage.due_sent table s t.value ▸ recounts)
    rcases given with ⟨sight, s₃, rfl, gave, between'⟩ | ⟨rfl, left⟩
    · obtain ⟨entries', s', r, w', l', plain', scribed', rest, concludes⟩ :=
        ih between' w₁ (log ++ [.act (.sent t.value)] ++ entries ++ [.act (.gave sight)])
      have gives : Recounts table (s₂, none) (.act (.gave sight) :: entries') (s', none) :=
        .act gave (Stage.due_gave table s₂ sight ▸ rest)
      refine ⟨.act (.sent t.value) :: entries ++ .act (.gave sight) :: entries', s', _, w', l',
        takeTurns_cons plain plain', ?_, start.trans gives, ?_⟩
      · rw [takeTurns_cons (watched_of scribed) scribed']
        simp only [List.append_assoc, List.cons_append, List.nil_append]
      · rw [Entry.acts_append]
        exact concludes.cons inner
    · refine ⟨.act (.sent t.value) :: entries, s₂, .exhausted, w₁, l₁, takeTurns_exhausted plain,
        ?_, start, .stuck inner left⟩
      rw [takeTurns_exhausted (watched_exhausted scribed), List.append_assoc]
      rfl

end

theorem Concludes.idle {driver : List Value} {acts : List Act} {s : Stage} {bound : Nat}
    {r : Result (List Sight)} (concludes : Concludes bound driver acts s r) : s.Idle := by
  cases r with
  | ok seen => exact .inl concludes.1
  | raised e => exact concludes.elim
  | exhausted => exact concludes.1.elim (fun h => .inr (.inl h)) fun h => .inr (.inr h.1)

/-- The log tells the run, whatever the computation, the table, the driver and the rest of the
program do. Keeping it changes nothing. The decisions have records in the order of the suspensions
of the source, one for each, and only the last suspension can be without one. What follows a
suspension tells where its record stands, and that there is none after an error or an action that is
left unsettled. The call of an entry that returns a computation has one more record, and what that
computation yields has none. There are no other records. -/
theorem log_tells_run {L : Language} (drive : Nat → Value → Exec (World L) Step)
    (call : Value → List Value → Exec (World L) Value) (table : Table) (c : Source (World L))
    (bound : Nat) (turns : List (Turn (World L))) (w : World L) :
    (∀ n (w : World L), (World.host drive call).note n w =
      (.ok (), if w.logging then w.addEvent (w.eventOf n) else w)) ∧
    (∀ x (w : World L),
      w.eventOf (.forwarding x) = .logged ("forwarding unhandled action " ++ w.display x) ∧
      w.eventOf (.resolved x) = .logged ("resolved value action " ++ w.display x) ∧
      w.eventOf (.driving x) = .logged ("driving handler body of " ++ w.display x) ∧
      w.eventOf (.aborted x) = .logged ("handling aborted at " ++ w.display x) ∧
      w.eventOf (.resumed x) = .logged ("resumed " ++ w.display x)) ∧
    ∃ log s r w' l,
      takeTurns (fun _ => handling (World.host drive call) table c bound) inWorld turns
        (w, .fresh .start) = (r, (w', l)) ∧
      takeTurns (fun _ => (handling ((World.host drive call).scribed fun w => w.tokens.get?) table
        c.scribed bound).watched) (fun change => inWorld (inWorld change)) turns
        ((w, []), .fresh .start) = (r, ((w', log), l)) ∧
      Concludes bound (turns.map (·.value)) (Entry.acts log) s r ∧
      Recounts table (.waits .start, none) log (s, none) ∧
      (∃ left : List Value, left.length ≤ 1 ∧
        log.filterMap Entry.suspended? = log.filterMap Entry.decided? ++ left) ∧
      (∀ before v x after, log = before ++ .act (.advanced v (.ok (.suspended x))) :: after →
        Decided table x after) ∧
      ∀ before n w₁ after, log = before ++ .record n w₁ :: after →
        ∃ earlier a x, before = earlier ++ [.act a] ∧ Prompts table x a n ∧
          ∃ first v last, Entry.acts before = first ++ .advanced v (.ok (.suspended x)) :: last ∧
            ∀ b ∈ last, b.isAdvanced = false := by
  have lawful : (World.host drive call).Lawful fun w => w.tokens.get? :=
    World.lawful_host drive call
  obtain ⟨log, s, r, w', l, plain, scribed, recounts, concludes⟩ :=
    @turns_recount _ table bound _ _ lawful c turns _ _ .fresh w []
  refine ⟨fun n w => rfl, fun x w => ⟨rfl, rfl, rfl, rfl, rfl⟩, log, s, r, w', l, plain, scribed,
    concludes, recounts, records_in_order recounts rfl, ?_, ?_⟩
  · intro before v x after hlog
    -- What comes after the suspension is a full log of its own, from the stage that it has led to.
    rw [hlog] at recounts
    obtain ⟨m, -, rest⟩ := recounts_append.mp recounts
    cases rest with
    | act allowed rest =>
      cases allowed
      exact decided_of_recounts rest concludes.idle
  · intro before n w₁ after hlog
    rw [hlog] at recounts
    obtain ⟨m, first, rest⟩ := recounts_append.mp recounts
    cases rest with
    | record rest =>
      -- A record is due to the act right before it, and what was handled then is known from the
      -- acts before.
      obtain rfl | ⟨earlier, a, s₀, rfl, told, allowed, due⟩ := last_of_due first
      · cases first.eq_of_nil
      · have start : Past table [] (.waits .start) := trivial
        have past := past_of_follows start told.follows
        obtain ⟨x, prompts, about⟩ := prompts_of_due past allowed due
        refine ⟨earlier, a, x, rfl, prompts, ?_⟩
        rw [Entry.acts_append]
        exact about

namespace SmallLog

def language : Language := ⟨Unit, Unit, Unit⟩

def operation (name : String) : Value := .action 0 (.str "console") (.str name) 0 []

/-- Asks for a line, writes it, and completes with what comes of that. -/
def source (v : Value) : Exec (World language) Step :=
  match v with
  | .nil => pure (.suspended (operation "read_line"))
  | .str _ => pure (.suspended (operation "write_line"))
  | v => pure (.completed v)

/-- Whatever is called resumes its action. -/
def host : Host (World language) :=
  World.host (fun _ _ => pure (.completed .nil)) fun _ arguments => do
    match arguments with
    | [.tactics token] => World.settleToken token (.resume (.int 6))
    | _ => pure ()
    return .nil

def table : Table := [(.str "console", [(.str "write_line", .native 0 (.writerTell 0))])]

def start : World language := { memory := (), logging := true }

end SmallLog

open SmallLog in
/-- The records of a loop that forwards the first action and resumes the second one. -/
example :
    (takeTurns (fun _ => handling host table source 3) inWorld [⟨0, id, .nil⟩, ⟨0, id, .str "hi"⟩]
      (SmallLog.start, .fresh .start)).2.1.events =
    [.logged "resumed console.write_line",
      .logged "forwarding unhandled action console.read_line"] := by
  rfl

end Dispatch

end OneShot
