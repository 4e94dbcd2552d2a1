import OneShot.Proofs.StoreCalls

/-!
# Operations on a list of messages

What a writer handler does when it is called by a dispatch loop. Telling puts a message at the end
of the live list and is answered with nothing. Listening is answered with a new list, into which the
messages are copied.
-/

namespace OneShot.World.Writer

open Dispatch (react callHandler)

variable {L : Language}

/-- What an action asks of the handlers. -/
inductive Operation where
  | tell (message : Value)
  | listen

namespace Operation

/-- The message that an operation tells. -/
def told? : Operation → Option Value
  | tell message => some message
  | listen => none

/-- What an operation is answered with. -/
def answer (w : World L) : Operation → Value
  | tell _ => .nil
  | listen => .list w.lists.next

/-- What an operation makes of the lists. -/
def lists (live : Nat) (w : World L) : Operation → Pool (List Value)
  | tell message => w.lists.set live (w.list live ++ [message])
  | listen => (w.lists.add (w.list live)).2

end Operation

/-- The operation that an action asks for, if it has the parameters of one. -/
def asked : Value → Option Operation
  | .action _ (.str "writer") (.str "tell") _ [message] => some (.tell message)
  | .action _ (.str "writer") (.str "listen") _ [] => some .listen
  | _ => none

/-- The table of the writer handlers for a live list. -/
def table (id live : Nat) : Table :=
  [(.str "writer", [(.str "tell", .native id (.writerTell live)),
    (.str "listen", .native (id + 1) (.writerListen live))])]

/-! ## The table -/

theorem asked_tell {x message : Value} (h : asked x = some (.tell message)) :
    ∃ i t, x = .action i (.str "writer") (.str "tell") t [message] := by
  unfold asked at h
  split at h <;> cases h
  exact ⟨_, _, rfl⟩

theorem asked_listen {x : Value} (h : asked x = some .listen) :
    ∃ i t, x = .action i (.str "writer") (.str "listen") t [] := by
  unfold asked at h
  split at h <;> cases h
  exact ⟨_, _, rfl⟩

theorem claim_tell (id live i t : Nat) (parameters : List Value) :
    (table id live).claim (.action i (.str "writer") (.str "tell") t parameters) =
      .entry (.native id (.writerTell live)) := by
  simp [Table.claim, table, Assoc.get?_cons, State.isKey_str, Value.same]

theorem claim_listen (id live i t : Nat) (parameters : List Value) :
    (table id live).claim (.action i (.str "writer") (.str "listen") t parameters) =
      .entry (.native (id + 1) (.writerListen live)) := by
  simp [Table.claim, table, Assoc.get?_cons, State.isKey_str, Value.same]

theorem claim_cases (id live : Nat) (x : Value) :
    (∃ i t parameters, x = .action i (.str "writer") (.str "tell") t parameters) ∨
    (∃ i t parameters, x = .action i (.str "writer") (.str "listen") t parameters) ∨
    (table id live).claim x = .unclaimed ∨ ∃ name, (table id live).claim x = .notKey name := by
  cases x with
  | action i effect name t parameters =>
    have apart {s : String} {v : Value} (other : v ≠ .str s) : (Value.str s).same v = false := by
      rwa [← Bool.not_eq_true, State.same_str]
    by_cases effectKey : effect.isKey = true
    swap
    · exact .inr (.inr (.inr ⟨effect, by simp [Table.claim, effectKey]⟩))
    by_cases writer : effect = .str "writer"
    swap
    · refine .inr (.inr (.inl ?_))
      simp [Table.claim, table, Assoc.get?_cons, effectKey, apart writer]
    subst writer
    by_cases nameKey : name.isKey = true
    swap
    · refine .inr (.inr (.inr ⟨name, ?_⟩))
      simp [Table.claim, table, Assoc.get?_cons, State.isKey_str, Value.same, nameKey]
    by_cases tell : name = .str "tell"
    · exact .inl ⟨i, t, parameters, by rw [tell]⟩
    by_cases listen : name = .str "listen"
    · exact .inr (.inl ⟨i, t, parameters, by rw [listen]⟩)
    · refine .inr (.inr (.inl ?_))
      simp [Table.claim, table, Assoc.get?_cons, State.isKey_str, Value.same, nameKey, apart tell,
        apart listen]
  | _ => exact .inr (.inr (.inl rfl))

/-! ## The reaction of a loop -/

section

variable {program : Program L} {steps depth id live : Nat} {x : Value} {w : World L}

theorem lists_note (n : Note) (w : World L) : (note n w).2.lists = w.lists := by
  simp only [note, Exec.modify]
  split <;> rfl

theorem lists_resumed {token : Nat} {t : Token} {w : World L}
    (known : w.tokens.get? token = some t) (pending : t.outcome = none) (x answer : Value) :
    (State.resumed x token answer w).lists = w.lists := by
  rw [State.resumed, lists_note, attempt_pending known pending]

variable (program steps depth) in
theorem react_tell {message : Value} (asks : asked x = some (.tell message)) :
    ∃ w', react (kernel program steps (depth + 2)) (table id live) (.suspended x) w =
        (.ok (.proceed .nil), w') ∧
      w'.lists = w.lists.set live (w.list live ++ [message]) := by
  obtain ⟨i, t, rfl⟩ := asked_tell asks
  let x : Value := .action i (.str "writer") (.str "tell") t [message]
  let told : World L :=
    { (w.addToken x).2 with lists := w.lists.set live (w.list live ++ [message]) }
  have known : told.tokens.get? w.tokens.next = some (.pending x w.nextId) := State.new_token x w
  have called : (kernel program steps (depth + 2)).call (.native id (.writerTell live))
      [message, .tactics w.tokens.next] (w.addToken x).2 =
        (.ok .nil, (attempt w.tokens.next (.resume .nil) told).2) := by
    have appended : append live message (w.addToken x).2 = (.ok (), told) := rfl
    have done : tell (kernel program steps (depth + 1)) live message (.tactics w.tokens.next)
        (w.addToken x).2 = (.ok (), (attempt w.tokens.next (.resume .nil) told).2) := by
      rw [tell, Exec.bind_ok appended]
      exact State.settle_kernel program steps depth known rfl (.resume .nil)
    exact Exec.bind_ok done
  exact ⟨_, State.react_resumed (claim_tell id live i t _) rfl called rfl rfl,
    lists_resumed known rfl _ _⟩

variable (program steps depth) in
theorem react_listen (asks : asked x = some .listen) :
    ∃ w', react (kernel program steps (depth + 2)) (table id live) (.suspended x) w =
        (.ok (.proceed (.list w.lists.next)), w') ∧
      w'.lists = (w.lists.add (w.list live)).2 := by
  obtain ⟨i, t, rfl⟩ := asked_listen asks
  let x : Value := .action i (.str "writer") (.str "listen") t []
  let copied : World L := { (w.addToken x).2 with lists := (w.lists.add (w.list live)).2 }
  have fresh := State.new_token x w
  have known : copied.tokens.get? w.tokens.next = some (.pending x w.nextId) := fresh
  have called : (kernel program steps (depth + 2)).call (.native (id + 1) (.writerListen live))
      [.tactics w.tokens.next] (w.addToken x).2 =
        (.ok .nil, (attempt w.tokens.next (.resume (.list w.lists.next)) copied).2) := by
    have found : access (.tactics w.tokens.next) "resume" (w.addToken x).2 = _ :=
      State.access_method fresh (.resume .nil)
    have copies : Exec.alter (fun w => w.addList (w.list live)) (w.addToken x).2 =
      (.ok (.list w.lists.next), copied) := rfl
    have settled : (kernel program steps (depth + 1)).call
        (.method (.tactics w.tokens.next) .resume) [.list w.lists.next] copied =
          (.ok .nil, (attempt w.tokens.next (.resume (.list w.lists.next)) copied).2) := by
      have called := congrFun (State.kernel_call_method program steps depth w.tokens.next
        (.resume (.list w.lists.next))) copied
      rw [attempt_pending known rfl] at called ⊢
      exact called
    have done : listen (kernel program steps (depth + 1)) live (.tactics w.tokens.next)
        (w.addToken x).2 =
          (.ok (), (attempt w.tokens.next (.resume (.list w.lists.next)) copied).2) := by
      rw [listen, Exec.bind_ok found, Exec.bind_ok copies]
      exact Exec.bind_ok settled
    exact Exec.bind_ok done
  exact ⟨_, State.react_resumed (claim_listen id live i t _) rfl called rfl rfl,
    lists_resumed known rfl _ _⟩

variable (program steps depth) in
theorem react_asked {o : Operation} (asks : asked x = some o) (w : World L) :
    ∃ w', react (kernel program steps (depth + 2)) (table id live) (.suspended x) w =
        (.ok (.proceed (o.answer w)), w') ∧ w'.lists = o.lists live w := by
  cases o with
  | tell message => exact react_tell program steps depth asks
  | listen => exact react_listen program steps depth asks

variable (program steps depth) in
theorem react_unsuited {entry : Value} (claimed : (table id live).claim x = .entry entry)
    (callable : entry.isCallable = true)
    (refused : (kernel program steps (depth + 2)).call entry
      (Dispatch.parametersOf x ++ [.tactics w.tokens.next]) = refuse .unsuited) :
    ∃ e w', react (kernel program steps (depth + 2)) (table id live) (.suspended x) w =
        (.raised e, w') ∧ w'.lists = w.lists := by
  have issued : (kernel program steps (depth + 2)).issue x w =
      (.ok w.tokens.next, (w.addToken x).2) := rfl
  obtain ⟨e, -, raised⟩ := State.refuse_eq (α := Value) .unsuited (w.addToken x).2
  refine ⟨e, { (w.addToken x).2 with nextId := (w.addToken x).2.nextId + 1 }, ?_, rfl⟩
  rw [react, Dispatch.resolve_call claimed callable, callHandler, Exec.bind_ok issued, refused]
  exact Exec.bind_raised raised

variable (program steps depth) in
theorem react_other (other : asked x = none) :
    ∃ r w', react (kernel program steps (depth + 2)) (table id live) (.suspended x) w = (r, w') ∧
      w'.lists = w.lists ∧ (r = .ok (.stop (.suspend x .forwarding)) ∨ ∃ e, r = .raised e) := by
  have refused {e : Error} {w' : World L}
      (run : react (kernel program steps (depth + 2)) (table id live) (.suspended x) w =
        (.raised e, w')) (kept : w'.lists = w.lists) :
      ∃ r w', react (kernel program steps (depth + 2)) (table id live) (.suspended x) w = (r, w') ∧
        w'.lists = w.lists ∧ (r = .ok (.stop (.suspend x .forwarding)) ∨ ∃ e, r = .raised e) :=
    ⟨_, w', run, kept, .inr ⟨e, rfl⟩⟩
  obtain ⟨i, t, parameters, rfl⟩ | ⟨i, t, parameters, rfl⟩ | claim | ⟨name, claim⟩ :=
    claim_cases id live x
  · obtain ⟨e, w', run, kept⟩ := react_unsuited program steps depth (w := w)
      (claim_tell id live i t parameters) rfl (by
        rcases parameters with _ | ⟨message, _ | ⟨second, rest⟩⟩
        · rfl
        · cases other
        · cases rest <;> rfl)
    exact refused run kept
  · obtain ⟨e, w', run, kept⟩ := react_unsuited program steps depth (w := w)
      (claim_listen id live i t parameters) rfl (by
        rcases parameters with _ | ⟨first, _ | ⟨second, rest⟩⟩
        · cases other
        · rfl
        · rfl)
    exact refused run kept
  · refine ⟨_, (note (.forwarding x) w).2, ?_, lists_note _ _, .inl rfl⟩
    rw [react, Dispatch.resolve, claim]
    rfl
  · have run : react (kernel program steps (depth + 2)) (table id live) (.suspended x) w =
        Host.fail (kernel program steps (depth + 2)) (.refused name.keyRefusal) w := by
      rw [react, Dispatch.resolve, claim]
    exact refused run rfl

end

end OneShot.World.Writer
