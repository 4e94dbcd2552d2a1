import OneShot.Proofs.StoreCalls

/-!
# Questions to an environment

What a dispatch loop with a handler for questions makes of an action. It answers from the entries of
the handler. A question that they do not answer is an error, or it is asked of the surroundings: a
new computation asks it, and its answer resumes the token.
-/

namespace OneShot.World.Shadowing

open Dispatch (react takeUp runBody conclude callHandler)
open State (same_str isKey_str new_token settle_kernel access_method)

variable {L : Language}

/-- What an action is to a loop that answers questions. -/
inductive Question where
  | other
  | refused (refusal : Refusal)
  | key (key : Value)

def question (x : Value) : Question :=
  match (singleTable "reader" "ask" .nil).claim x with
  | .unclaimed => .other
  | .notKey name => .refused name.keyRefusal
  | .entry _ =>
    match Dispatch.parametersOf x with
    | [key] => if key.isKey then .key key else .refused key.keyRefusal
    | _ => .refused .unsuited

/-- The handler of a local environment, or the one of the reader handlers. -/
def handler : (isLocal : Bool) → Assoc Value → Native Value
  | true, overrides => .localAsk overrides
  | false, environment => .readerAsk environment

/-- An environment, with the identity of its handler. A local one has others around it. -/
structure Scope where
  id : Nat
  isLocal : Bool
  entries : Assoc Value

def Scope.table (s : Scope) : Table :=
  singleTable "reader" "ask" (.native s.id (handler s.isLocal s.entries))

/-- An error that is made for this cause. -/
structure Made (L : Language) (cause : Cause Value) (e : Error) : Prop where
  text : ∃ w : World L, e.argument = w.argumentOf cause
  cause : e.cause = cause
  kind : e.kind ≠ .stopIteration

/-- The tokens and computations that were there before are as they were. -/
structure Newer (tokens computations : Nat) (w w' : World L) : Prop where
  tokens : ∀ t < tokens, w'.tokens.get? t = w.tokens.get? t
  computations : ∀ n < computations, w'.computations.get? n = w.computations.get? n

/-- A computation has asked the surroundings for a pending token and waits for their answer. -/
structure Asking (t n : Nat) (w : World L) : Prop where
  pending : ∃ token, w.tokens.get? t = some token ∧ token.outcome = none
  waiting : ∃ c question, w.computations.get? n = some c ∧
    c.life = .suspended (.askOuter question (.tactics t) true) ∧ c.delegators = []

theorem Scope.claim_table (s : Scope) (x : Value) :
    s.table.claim x =
      match (singleTable "reader" "ask" .nil).claim x with
      | .entry _ => .entry (.native s.id (handler s.isLocal s.entries))
      | claim => claim :=
  Table.claim_mapContents (fun _ => .native s.id (handler s.isLocal s.entries))
    (singleTable "reader" "ask" .nil) x

theorem claim_of_other {x : Value} (h : question x = .other) :
    (singleTable "reader" "ask" .nil).claim x = .unclaimed := by
  unfold question at h
  split at h
  · assumption
  · cases h
  · split at h
    · split at h <;> cases h
    · cases h

theorem claim_of_key {x key : Value} (h : question x = .key key) :
    (∃ v, (singleTable "reader" "ask" .nil).claim x = .entry v) ∧
      Dispatch.parametersOf x = [key] ∧ key.isKey = true := by
  unfold question at h
  split at h
  · cases h
  · cases h
  · split at h
    · split at h
      · obtain rfl := Question.key.inj h
        exact ⟨⟨_, ‹_›⟩, ‹_›, ‹_›⟩
      · cases h
    · cases h

theorem claim_of_refused {x : Value} {refusal : Refusal} (h : question x = .refused refusal) :
    (∃ name, (singleTable "reader" "ask" .nil).claim x = .notKey name ∧
      refusal = name.keyRefusal) ∨
    (∃ v, (singleTable "reader" "ask" .nil).claim x = .entry v) ∧
      ((∃ key, Dispatch.parametersOf x = [key] ∧ key.isKey = false ∧ refusal = key.keyRefusal) ∨
        (Dispatch.parametersOf x).length ≠ 1 ∧ refusal = .unsuited) := by
  unfold question at h
  split at h
  · cases h
  · rename_i name claimed
    exact Or.inl ⟨name, claimed, (Question.refused.inj h).symm⟩
  · rename_i v claimed
    refine Or.inr ⟨⟨v, claimed⟩, ?_⟩
    split at h
    · rename_i key parameters
      split at h
      · cases h
      · rename_i unknown
        exact Or.inl ⟨key, parameters, Bool.eq_false_iff.mpr unknown, (Question.refused.inj h).symm⟩
    · rename_i others
      refine Or.inr ⟨fun one => ?_, (Question.refused.inj h).symm⟩
      obtain ⟨key, parameters⟩ := List.length_eq_one_iff.mp one
      exact others key parameters

/-! ## Worlds that have gone on -/

namespace Newer

variable {t t' n n' : Nat} {w w₁ w₂ : World L}

theorem trans (h : Newer t n w w₁) (h' : Newer t n w₁ w₂) : Newer t n w w₂ :=
  ⟨fun i hi => (h'.tokens i hi).trans (h.tokens i hi),
    fun i hi => (h'.computations i hi).trans (h.computations i hi)⟩

theorem mono (h : Newer t n w w₁) (ht : t' ≤ t) (hn : n' ≤ n) : Newer t' n' w w₁ :=
  ⟨fun i hi => h.tokens i (Nat.lt_of_lt_of_le hi ht),
    fun i hi => h.computations i (Nat.lt_of_lt_of_le hi hn)⟩

end Newer

theorem Asking.newer {t n t' n' : Nat} {w w' : World L} (h : Asking t n w)
    (newer : Newer t' n' w w') (ht : t < t') (hn : n < n') : Asking t n w' := by
  obtain ⟨⟨token, issued, pending⟩, c, asked, known, life, alone⟩ := h
  exact ⟨⟨token, (newer.tokens t ht).trans issued, pending⟩, c, asked,
    (newer.computations n hn).trans known, life, alone⟩

theorem tokens_note (x : Note) (w : World L) : (note x w).2.tokens = w.tokens := by
  simp only [note, Exec.modify]
  split <;> rfl

theorem computations_note (x : Note) (w : World L) :
    (note x w).2.computations = w.computations := by
  simp only [note, Exec.modify]
  split <;> rfl

theorem newer_note (x : Note) (w : World L) {t n : Nat} : Newer t n w (note x w).2 :=
  ⟨fun _ _ => by rw [tokens_note], fun _ _ => by rw [computations_note]⟩

theorem conclude_resumed (program : Program L) (steps depth : Nat) {t : Nat} {w : World L}
    {token : Token} {v : Value} (issued : w.tokens.get? t = some token)
    (decided : token.outcome = some (.resume v)) (x : Value) :
    conclude (kernel program steps depth) x t w =
      (.ok (.proceed v), (note (.resumed x) w).2) := by
  have outcome : (kernel program steps depth).outcome t w = (.ok (some (.resume v)), w) := by
    refine Prod.ext (congrArg Result.ok ?_) rfl
    show (w.tokens.get? t).bind (·.outcome) = _
    rw [issued]
    exact decided
  rw [conclude, Exec.bind_ok outcome]
  rfl

/-! ## Calls -/

section

variable (program : Program L) (steps depth : Nat) {isLocal : Bool} {entries : Assoc Value}
  {w : World L} {key a : Value}

theorem mint_eq (cause : Cause Value) (plain : cause.kind ≠ .stopIteration) (w : World L) :
    ∃ e w', Made L cause e ∧ ∀ {α : Type}, (fail cause : Exec (World L) α) w = (.raised e, w') :=
  ⟨⟨w.nextId, cause, w.argumentOf cause⟩, { w with nextId := w.nextId + 1 },
    ⟨⟨w, rfl⟩, rfl, plain⟩, rfl⟩

theorem callNative_unsuited (host : Host (World L)) {parameters : List Value}
    (unsuited : parameters.length ≠ 1) (t : Nat) :
    callNative host (handler isLocal entries) (parameters ++ [.tactics t]) = refuse .unsuited := by
  cases isLocal <;> rcases parameters with _ | ⟨_, _ | ⟨_, _ | ⟨_, rest⟩⟩⟩ <;>
    first
    | rfl
    | exact absurd rfl unsuited

theorem find_known (host : Host (World L)) (known : key.isKey = true) :
    Reader.find host entries key = pure (entries.get? key) := by
  simp only [Reader.find, if_pos known]

theorem callNative_unknown (isLocal : Bool) (entries : Assoc Value) (unknown : key.isKey = false)
    (tactics : Value) (w : World L) :
    ∃ e w', Made L (.refused key.keyRefusal) e ∧
      callNative (kernel program steps depth) (handler isLocal entries) [key, tactics] w =
        (.raised e, w') := by
  obtain ⟨e, w', made, failed⟩ := mint_eq (.refused key.keyRefusal) nofun w
  refine ⟨e, w', made, ?_⟩
  have found : Reader.find (kernel program steps depth) entries key w = (.raised e, w') := by
    simp only [Reader.find, unknown, Bool.false_eq_true, if_false]
    exact failed
  cases isLocal with
  | true => exact Exec.bind_raised (Exec.bind_raised found)
  | false => exact Exec.bind_raised (Exec.bind_raised found)

theorem callNative_found (known : key.isKey = true) (found : entries.get? key = some a) {t : Nat}
    {token : Token} (issued : w.tokens.get? t = some token) (pending : token.outcome = none) :
    callNative (kernel program steps (depth + 1)) (handler isLocal entries) [key, .tactics t] w =
      (.ok .nil, (attempt t (.resume a) w).2) := by
  have settled := settle_kernel program steps depth issued pending (.resume a)
  cases isLocal with
  | true =>
    have asked : Reader.askLocal (kernel program steps (depth + 1)) entries key (.tactics t) w =
        (.ok true, (attempt t (.resume a) w).2) := by
      simp only [Reader.askLocal, find_known _ known, found, pure_bind]
      exact Exec.bind_ok settled
    exact Exec.bind_ok asked
  | false =>
    have asked : Reader.ask (kernel program steps (depth + 1)) entries key (.tactics t) w =
        (.ok (), (attempt t (.resume a) w).2) := by
      simp only [Reader.ask, find_known _ known, found, pure_bind]
      exact settled
    exact Exec.bind_ok asked

theorem callNative_missing (known : key.isKey = true) (missing : entries.get? key = none)
    (tactics : Value) (w : World L) : ∃ e w', Made L (.missingKey key) e ∧
      callNative (kernel program steps depth) (.readerAsk entries) [key, tactics] w =
        (.raised e, w') := by
  obtain ⟨e, w', made, failed⟩ := mint_eq (.missingKey key) nofun w
  refine ⟨e, w', made, ?_⟩
  have asked : Reader.ask (kernel program steps depth) entries key tactics w = (.raised e, w') := by
    simp only [Reader.ask, find_known _ known, missing, pure_bind]
    exact failed
  exact Exec.bind_raised asked

/-- The question of a local environment to its surroundings. -/
def outward (key : Value) (w : World L) : Value :=
  (w.addAction OneShot.Reader.effectName OneShot.Reader.askName [key]).1

/-- A local environment that lacks the key makes a computation that asks the surroundings. -/
def asker (key tactics : Value) (w : World L) : World L :=
  ((w.addAction OneShot.Reader.effectName OneShot.Reader.askName [key]).2.addComputation
    "_ask_outer" (.askOuter (outward key w) tactics false)).2

theorem callNative_outward (host : Host (World L)) (known : key.isKey = true)
    (missing : entries.get? key = none) (tactics : Value) (w : World L) :
    callNative host (.localAsk entries) [key, tactics] w =
      (.ok (.computation w.computations.next), asker key tactics w) := by
  have asked : Reader.askLocal host entries key tactics w = (.ok false, w) := by
    simp only [Reader.askLocal, find_known _ known, missing, pure_bind]
    rfl
  exact Exec.bind_ok asked

end

/-! ## The computation that asks the surroundings -/

section

variable {program : Program L} {n : Nat} {w w₁ : World L} {c : Computation L}

theorem owners_alone (known : w.computations.get? n = some c) (alone : c.delegators = []) :
    Delegation.owners program w n = [] := by
  simp only [Delegation.owners, known, alone, List.filter_nil]

theorem lost_nil (program : Program L) (w : World L) : Delegation.lost program w [] = [] := rfl

theorem attend_alone {drive : Exec (World L) Step} {step : Step} {c₁ : Computation L}
    (known : w.computations.get? n = some c) (alone : c.delegators = [])
    (run : drive { w with drives := n :: w.drives } = (.ok step, w₁))
    (known₁ : w₁.computations.get? n = some c₁) (alone₁ : c₁.delegators = [])
    (free : Delegation.of? program { w₁ with drives := w.drives } n = none) :
    Delegation.attend program n drive w = (.ok step, { w₁ with drives := w.drives }) := by
  have settled : Delegation.settle program n w = (.ok (), w) := by
    simp only [Delegation.settle, Exec.modify, owners_alone known alone]
    rfl
  have driven : Delegation.inDrive n drive w =
      (.ok (.ok step), { w₁ with drives := w.drives }) := by
    simp only [Delegation.inDrive, Bind.bind, Exec.bind, Exec.read, Exec.modify, Exec.attempt, run]
    rfl
  have released : Delegation.release program n { w₁ with drives := w.drives } =
      (.ok (), { w₁ with drives := w.drives }) := by
    have owners : Delegation.owners program { w₁ with drives := w.drives } n = [] :=
      owners_alone known₁ alone₁
    simp only [Delegation.release, Exec.modify, owners, lost_nil]
    rfl
  have noted : Delegation.noteOwner program n { w₁ with drives := w.drives } =
      (.ok (), { w₁ with drives := w.drives }) := by
    simp only [Delegation.noteOwner, Exec.modify, free]
  rw [Delegation.attend, Exec.bind_ok settled, Exec.bind_ok (rfl : Exec.read _ w = _),
    Exec.bind_ok driven, Exec.bind_ok released]
  exact Exec.bind_ok noted

end

section

variable (program : Program L) (steps depth : Nat) {t n : Nat} {w : World L} {c : Computation L}
  {asked : Value}

theorem set_lifeCell (known : w.computations.get? n = some c) (life : Life (Body L)) :
    (lifeCell n).set life w =
      { w with computations := w.computations.set n { c with life } } := by
  simp only [lifeCell, known]

def entered (n : Nat) (c : Computation L) (body : Body L) (w : World L) : World L :=
  { w with
    drives := n :: w.drives
    computations := w.computations.set n { c with life := .running body } }

def exited (n : Nat) (c : Computation L) (move : Move (Body L)) (drives : List Nat) (w : World L) :
    World L :=
  { w with
    drives
    computations := w.computations.set n { c with life := Life.left (.ok move) } }

theorem drive_alone (known : w.computations.get? n = some c) (alone : c.delegators = [])
    {v u : Value} {body : Body L} (entry : c.life.enters? v = some (body, u))
    {move : Move (Body L)} {w₁ : World L}
    (run : moveBody program (kernel program steps depth) steps body u (entered n c body w) =
      (.ok move, w₁))
    (kept : w₁.computations = (entered n c body w).computations)
    (free : ∀ x next, move = .suspend x next → Delegation.delegate? program next = none) :
    (kernel program steps (depth + 1)).drive n v w =
      (.ok move.step, exited n c move w.drives w₁) := by
  -- The body keeps the computations, so its place is still as the drive has left it.
  have running : w₁.computations.get? n = some { c with life := .running body } := by
    rw [kept]
    exact Pool.get?_set_self known _
  have life : (lifeCell n).get { w with drives := n :: w.drives } = c.life := by
    simp only [lifeCell, known]
  have sets : (lifeCell n).set (.running body) { w with drives := n :: w.drives } =
      entered n c body w := set_lifeCell (w := { w with drives := n :: w.drives }) known _
  have ended := Life.enter_ended (o := .ok move) (mint (L := L)) ((congrArg _ sets).trans run)
  rw [set_lifeCell running] at ended
  have left := Pool.get?_set_self running { c with life := Life.left (.ok move) }
  have after : (lifeCell n).get (exited n c move w.drives w₁) = Life.left (.ok move) := by
    simp only [lifeCell, exited, left]
  refine attend_alone known alone
    ((Life.drive_entered (by rw [life]; exact entry)).trans ended) left alone ?_
  show Delegation.of? program (exited n c move w.drives w₁) n = none
  rw [Delegation.of?, after]
  cases move with
  | suspend x next => exact free x next rfl
  | complete r => rfl

theorem drive_asks (known : w.computations.get? n = some c)
    (fresh : c.life = .fresh (.askOuter asked (.tactics t) false)) (alone : c.delegators = []) :
    (kernel program steps (depth + 1)).drive n .nil w = (.ok (.suspended asked),
      exited n c (.suspend asked (.askOuter asked (.tactics t) true)) w.drives
        (entered n c (.askOuter asked (.tactics t) false) w)) := by
  refine drive_alone program steps depth known alone (by rw [fresh]; rfl) rfl rfl ?_
  rintro x next ⟨⟩
  rfl

theorem drive_answers (asking : Asking t n w) (v : Value) :
    ∃ w', (kernel program steps (depth + 2)).drive n v w = (.ok (.completed .nil), w') ∧
      (∃ token, w'.tokens.get? t = some token ∧ token.outcome = some (.resume v)) ∧
      Newer t n w w' := by
  obtain ⟨⟨token, issued, pending⟩, c, asked, known, life, alone⟩ := asking
  let w₀ := entered n c (.askOuter asked (.tactics t) true) w
  let w₁ : World L :=
    { w₀ with tokens := w₀.tokens.set t { token with outcome := some (.resume v) } }
  have settled : (kernel program steps (depth + 1)).settle (.tactics t) (.resume v) w₀ =
      (.ok (), w₁) := by
    rw [settle_kernel program steps depth (w := w₀) issued pending,
      attempt_pending (w := w₀) issued pending]
  have run : moveBody program (kernel program steps (depth + 1)) steps
      (.askOuter asked (.tactics t) true) v w₀ = (.ok (.complete .nil), w₁) := by
    simp only [moveBody, Reader.askOuter, bind_assoc, pure_bind]
    exact Exec.bind_ok settled
  have driven := drive_alone program steps (depth + 1) known alone (by rw [life]; rfl) run rfl nofun
  refine ⟨_, driven, ⟨_, Pool.get?_set_self issued _, rfl⟩, fun i hi => ?_, fun i hi => ?_⟩
  · exact Pool.get?_set_of_ne _ _ (Nat.ne_of_gt hi)
  · have other : n ≠ i := Nat.ne_of_gt hi
    exact (Pool.get?_set_of_ne _ _ other).trans (Pool.get?_set_of_ne _ _ other)

theorem takeUp_answered (asking : Asking t n w) (x v : Value) :
    ∃ w', takeUp (kernel program steps (depth + 2)) (.handlerBody n x t) v w =
      (.ok (.proceed v), w') ∧ Newer t n w w' := by
  obtain ⟨w₁, driven, ⟨token, issued, decided⟩, newer⟩ := drive_answers program steps depth asking v
  refine ⟨_, (Exec.bind_ok driven).trans (conclude_resumed _ _ _ issued decided x), ?_⟩
  exact newer.trans (newer_note _ _)

end

/-! ## The reaction of a loop -/

section

variable (program : Program L) (steps depth : Nat) (s : Scope) {x key a : Value}

theorem question_outward (known : key.isKey = true) (w : World L) :
    question (outward key w) = .key key := by
  have claimed : (singleTable "reader" "ask" .nil).claim (outward key w) = .entry .nil := by
    simp [outward, addAction, takeIds, OneShot.Reader.effectName, OneShot.Reader.askName,
      singleTable, Table.claim, Assoc.get?_cons, isKey_str, Value.same]
  have parameters : Dispatch.parametersOf (outward key w) = [key] := rfl
  simp only [question, claimed, parameters, if_pos known]

theorem react_other (other : question x = .other) (w : World L) :
    ∃ w', react (kernel program steps depth) s.table (.suspended x) w =
        (.ok (.stop (.suspend x .forwarding)), w') ∧
      w'.tokens = w.tokens ∧ w'.computations = w.computations := by
  have unclaimed : s.table.claim x = .unclaimed := by
    rw [s.claim_table, claim_of_other other]
  simp only [react, Dispatch.resolve, unclaimed]
  exact ⟨_, rfl, tokens_note (.forwarding x) w, computations_note (.forwarding x) w⟩

theorem react_claimed {v : Value} (claimed : (singleTable "reader" "ask" .nil).claim x = .entry v)
    (w : World L) :
    react (kernel program steps (depth + 2)) s.table (.suspended x) w =
      (do
        let returned ← callNative (kernel program steps (depth + 1)) (handler s.isLocal s.entries)
          (Dispatch.parametersOf x ++ [Value.tactics w.tokens.next])
        match returned.computation? with
        | some n =>
          note (.driving x)
          runBody (kernel program steps (depth + 2)) n x w.tokens.next .nil
        | none => conclude (kernel program steps (depth + 2)) x w.tokens.next)
          (w.addToken x).2 := by
  have entry : s.table.claim x = .entry (.native s.id (handler s.isLocal s.entries)) := by
    rw [Scope.claim_table, claimed]
  have issued : (kernel program steps (depth + 2)).issue x w =
      (.ok w.tokens.next, (w.addToken x).2) := rfl
  rw [react, Dispatch.resolve_call entry rfl, callHandler, Exec.bind_ok issued]
  rfl

theorem react_refused {refusal : Refusal} (refused : question x = .refused refusal) (w : World L) :
    ∃ e w', react (kernel program steps (depth + 2)) s.table (.suspended x) w =
      (.raised e, w') ∧ Made L (.refused refusal) e := by
  -- The table refuses a name of the action, or the handler refuses the parameters.
  rcases claim_of_refused refused with ⟨name, claimed, rfl⟩ | ⟨⟨v, claimed⟩, unfit⟩
  · have notKey : s.table.claim x = .notKey name := by
      rw [Scope.claim_table, claimed]
    obtain ⟨e, w', made, failed⟩ := mint_eq (.refused name.keyRefusal) nofun w
    simp only [react, Dispatch.resolve, notKey]
    exact ⟨e, w', failed, made⟩
  · rw [react_claimed program steps depth s claimed]
    rcases unfit with ⟨key, parameters, unknown, rfl⟩ | ⟨unsuited, rfl⟩
    · rw [parameters]
      obtain ⟨e, w', made, called⟩ := callNative_unknown program steps (depth + 1) s.isLocal
        s.entries unknown (.tactics w.tokens.next) (w.addToken x).2
      exact ⟨e, w', Exec.bind_raised called, made⟩
    · have plain : (Cause.refused .unsuited : Cause Value).kind ≠ .stopIteration := by
        rintro ⟨⟩
      rw [callNative_unsuited _ unsuited]
      obtain ⟨e, w', made, failed⟩ := mint_eq (.refused .unsuited) plain (w.addToken x).2
      exact ⟨e, w', Exec.bind_raised failed, made⟩

theorem react_found (asked : question x = .key key) (found : s.entries.get? key = some a)
    (w : World L) :
    ∃ w', react (kernel program steps (depth + 2)) s.table (.suspended x) w =
      (.ok (.proceed a), w') ∧ Newer w.tokens.next w.computations.next w w' := by
  obtain ⟨⟨v, claimed⟩, parameters, known⟩ := claim_of_key asked
  let token : Token := .pending x w.nextId
  let w₁ : World L := { (w.addToken x).2 with
    tokens := (w.addToken x).2.tokens.set w.tokens.next { token with outcome := some (.resume a) } }
  have issued : (w.addToken x).2.tokens.get? w.tokens.next = some token := new_token x w
  have called : callNative (kernel program steps (depth + 1)) (handler s.isLocal s.entries)
      [key, .tactics w.tokens.next] (w.addToken x).2 = (.ok .nil, w₁) := by
    rw [callNative_found program steps depth known found issued rfl, attempt_pending issued rfl]
  have settled : w₁.tokens.get? w.tokens.next = some { token with outcome := some (.resume a) } :=
    Pool.get?_set_self issued _
  have newer : Newer w.tokens.next w.computations.next w w₁ := by
    refine ⟨fun i hi => ?_, fun _ _ => rfl⟩
    exact (Pool.get?_set_of_ne _ _ (Nat.ne_of_gt hi)).trans (Pool.get?_add_of_lt _ _ hi)
  rw [react_claimed program steps depth s claimed, parameters]
  exact ⟨_, (Exec.bind_ok called).trans (conclude_resumed _ _ _ settled rfl x),
    newer.trans (newer_note _ _)⟩

theorem react_missing (reader : s.isLocal = false) (asked : question x = .key key)
    (missing : s.entries.get? key = none) (w : World L) :
    ∃ e w', react (kernel program steps (depth + 2)) s.table (.suspended x) w =
      (.raised e, w') ∧ Made L (.missingKey key) e := by
  obtain ⟨⟨v, claimed⟩, parameters, known⟩ := claim_of_key asked
  obtain ⟨e, w', made, called⟩ := callNative_missing program steps (depth + 1) known missing
    (.tactics w.tokens.next) (w.addToken x).2
  rw [react_claimed program steps depth s claimed, parameters, reader]
  exact ⟨e, w', Exec.bind_raised called, made⟩

theorem react_outward (isLocal : s.isLocal = true) (asked : question x = .key key)
    (missing : s.entries.get? key = none) (w : World L) :
    ∃ y w', react (kernel program steps (depth + 2)) s.table (.suspended x) w =
        (.ok (.stop (.suspend y (.handlerBody w.computations.next x w.tokens.next))), w') ∧
      question y = .key key ∧ Newer w.tokens.next w.computations.next w w' ∧
      Asking w.tokens.next w.computations.next w' := by
  obtain ⟨⟨v, claimed⟩, parameters, known⟩ := claim_of_key asked
  let tactics : Value := .tactics w.tokens.next
  let y := outward key (w.addToken x).2
  let c : Computation L := { name := "_ask_outer", life := .fresh (.askOuter y tactics false) }
  let w₁ := (note (.driving x) (asker key tactics (w.addToken x).2)).2
  have called := callNative_outward (kernel program steps (depth + 1)) known missing tactics
    (w.addToken x).2
  have tokens : w₁.tokens = (w.addToken x).2.tokens := tokens_note _ _
  have computations : w₁.computations = (w.computations.add c).2 := computations_note _ _
  have fresh : w₁.computations.get? w.computations.next = some c := by
    rw [computations]
    exact Pool.get?_next _ _
  -- The new computation is driven at once, and its question is what the loop stops with.
  have driven := drive_asks program steps (depth + 1) (w := w₁) fresh rfl rfl
  rw [react_claimed program steps depth s claimed, parameters, isLocal]
  refine ⟨y, _, (Exec.bind_ok called).trans (Exec.bind_ok driven), question_outward known _,
    ⟨fun i hi => ?_, fun i hi => ?_⟩, ?_⟩
  · show w₁.tokens.get? i = w.tokens.get? i
    rw [tokens]
    exact Pool.get?_add_of_lt _ _ hi
  · have other : w.computations.next ≠ i := Nat.ne_of_gt hi
    refine (Pool.get?_set_of_ne _ _ other).trans ((Pool.get?_set_of_ne _ _ other).trans ?_)
    rw [computations]
    exact Pool.get?_add_of_lt _ _ hi
  · refine ⟨⟨.pending x w.nextId, ?_, rfl⟩, _, y,
      Pool.get?_set_self (Pool.get?_set_self fresh _) _, rfl, rfl⟩
    show w₁.tokens.get? w.tokens.next = _
    rw [tokens]
    exact new_token x w

end

end OneShot.World.Shadowing
