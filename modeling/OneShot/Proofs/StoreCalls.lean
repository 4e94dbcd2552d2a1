import Mathlib.Data.List.Basic
import OneShot.Proofs.Attempts
import OneShot.Proofs.Loop
import OneShot.Proofs.Tables

/-!
# Operations on a store

What a state handler does when it is called by a dispatch loop. It answers from the live mapping,
writes nothing else, and if it raises it writes nothing at all.
-/

namespace OneShot.World

open Dispatch (react callHandler conclude)

variable {L : Language}

namespace State

inductive Operation where
  | get | put | modify

namespace Operation

def name : Operation → String
  | get => "get"
  | put => "put"
  | modify => "modify"

def arity : Operation → Nat
  | get => 1
  | put | modify => 2

def ofName? : String → Option Operation
  | "get" => some get
  | "put" => some put
  | "modify" => some modify
  | _ => none

/-- The handler of the operation, with its identity. -/
def handler (id live : Nat) : Operation → Value
  | get => .native id (.stateGet live)
  | put => .native (id + 1) (.statePut live)
  | modify => .native (id + 2) (.stateModify live)

end Operation

/-- The table of the state handlers for a live mapping. -/
def table (id live : Nat) : Table :=
  [(.str "state", [Operation.get, .put, .modify].map fun o => (.str o.name, o.handler id live))]

/-- The operation that an action asks for, with its parameters. -/
def asked : Value → Option (Operation × List Value)
  | .action _ (.str "state") (.str name) _ parameters =>
    (Operation.ofName? name).map (·, parameters)
  | _ => none

def Same (D : Nat → Prop) (w w' : World L) : Prop :=
  ∀ d, D d → w'.dicts.get? d = w.dicts.get? d

def setDict (dict : Nat) (entries : Assoc Value) (w : World L) : World L :=
  { w with dicts := w.dicts.set dict entries }

/-- What a store holds under a key, or nothing. -/
def held (w : World L) (live : Nat) (key : Value) : Value := ((w.dict live).get? key).getD .nil

/-- How an operation ends on a live mapping: with an answer or an error, and in which world. A
function that is to modify a content is called once, with the content. It leaves alone the mappings
of `D`. -/
inductive Served (call : Value → List Value → Exec (World L) Value) (D : Nat → Prop) (live : Nat)
    (w : World L) : Operation → List Value → Except Error Value → World L → Prop where
  | get {key} (known : key.isKey = true) : Served call D live w .get [key] (.ok (held w live key)) w
  | put {key content} (known : key.isKey = true) :
      Served call D live w .put [key, content] (.ok .nil)
        (setDict live ((w.dict live).put key content) w)
  | modify {key f new w'} (known : key.isKey = true)
      (called : call f [held w live key] w = (.ok new, w')) (kept : Same D w w') :
      Served call D live w .modify [key, f] (.ok new) (setDict live ((w'.dict live).put key new) w')
  | raised {key f e w'} (known : key.isKey = true)
      (called : call f [held w live key] w = (.raised e, w')) (kept : Same D w w') :
      Served call D live w .modify [key, f] (.error e) w'
  | notKey {o key rest e w'} (suited : (key :: rest).length = o.arity)
      (unknown : key.isKey = false) (cause : e.cause = .refused key.keyRefusal)
      (kept : w'.dicts = w.dicts) : Served call D live w o (key :: rest) (.error e) w'
  | unsuited {o parameters e w'} (unsuited : parameters.length ≠ o.arity)
      (cause : e.cause = .refused .unsuited) (kept : w'.dicts = w.dicts) :
      Served call D live w o parameters (.error e) w'

/-! ## The table -/

theorem Operation.ofName?_eq {name : String} {o : Operation} :
    ofName? name = some o ↔ name = o.name := by
  constructor
  · unfold ofName?
    split <;> rintro ⟨⟩ <;> rfl
  · rintro rfl
    cases o <;> rfl

theorem asked_eq {x : Value} {o : Operation} {parameters : List Value} :
    asked x = some (o, parameters) ↔
      ∃ i t, x = .action i (.str "state") (.str o.name) t parameters := by
  constructor
  · unfold asked
    split
    · rename_i i name t ps
      simp only [Option.map_eq_some_iff, Prod.mk.injEq]
      rintro ⟨o', h, rfl, rfl⟩
      obtain rfl := Operation.ofName?_eq.mp h
      exact ⟨i, t, rfl⟩
    · rintro ⟨⟩
  · rintro ⟨i, t, rfl⟩
    simp [asked, Operation.ofName?_eq]

theorem same_str (s : String) (v : Value) : (Value.str s).same v = true ↔ v = .str s := by
  cases v with
  | str t =>
    simp only [Value.same, beq_iff_eq, Value.str.injEq]
    exact eq_comm
  | _ => simp [Value.same]

theorem isKey_str (s : String) : (Value.str s).isKey = true := by
  simp [Value.isKey, Value.changeable?]

theorem claim_asked (id live : Nat) {x : Value} {o : Operation} {parameters : List Value}
    (h : asked x = some (o, parameters)) :
    (table id live).claim x = .entry (o.handler id live) ∧
      Dispatch.parametersOf x = parameters := by
  obtain ⟨i, t, rfl⟩ := asked_eq.mp h
  refine ⟨?_, rfl⟩
  cases o <;>
    simp [Table.claim, table, Assoc.get?_cons, isKey_str, Value.same, Operation.name]

/-- An action has a name that cannot be looked up. -/
def Unnamed (x name : Value) : Prop :=
  name.isKey = false ∧ ∃ i effect operation t parameters,
    x = .action i effect operation t parameters ∧ (name = effect ∨ name = operation)

theorem claim_other (id live : Nat) {x : Value} (h : asked x = none) :
    (table id live).claim x = .unclaimed ∨
      ∃ name, (table id live).claim x = .notKey name ∧ Unnamed x name := by
  cases x with
  | action i effect name t parameters =>
    by_cases heffect : effect.isKey
    · by_cases hstate : effect = .str "state"
      · subst hstate
        by_cases hname : name.isKey
        · have other (o : Operation) : (Value.str o.name).same name = false := by
            rw [← Bool.not_eq_true, same_str]
            rintro rfl
            rw [asked_eq.mpr ⟨i, t, rfl⟩] at h
            cases h
          refine Or.inl ?_
          simp [Table.claim, table, Assoc.get?_cons, isKey_str, Value.same, hname, other]
        · rw [Bool.not_eq_true] at hname
          refine Or.inr ⟨name, ?_, hname, i, _, name, t, parameters, rfl, Or.inr rfl⟩
          simp [Table.claim, table, Assoc.get?_cons, isKey_str, Value.same, hname]
      · have other : (Value.str "state").same effect = false := by
          rw [← Bool.not_eq_true, same_str]
          exact hstate
        refine Or.inl ?_
        simp [Table.claim, table, Assoc.get?_cons, heffect, other]
    · rw [Bool.not_eq_true] at heffect
      refine Or.inr ⟨effect, ?_, heffect, i, effect, name, t, parameters, rfl, Or.inl rfl⟩
      simp [Table.claim, heffect]
  | _ => exact Or.inl rfl

/-! ## The calls -/

section

variable {program : Program L} {steps depth : Nat} {token : Nat} {t : Token} {w w' : World L}

theorem access_method (known : w.tokens.get? token = some t) (o : Outcome) :
    access (.tactics token) o.methodName w = (.ok (.method (.tactics token) o.method), w) := by
  have found : w.attribute? (.tactics token) o.methodName =
      some (.method (.tactics token) o.method) := by
    cases o <;>
      simp [attribute?, known, attribute?.tokenAttribute, Outcome.methodName, Outcome.method]
  simp only [access, Exec.read, Bind.bind, Exec.bind, found]
  rfl

variable (program steps depth) in
theorem kernel_call_method (token : Nat) (o : Outcome) :
    (kernel program steps (depth + 1)).call (.method (.tactics token) o.method) [o.value] =
      attempt token o := by
  cases o <;> rfl

variable (program steps depth) in
theorem settle_kernel (known : w.tokens.get? token = some t) (pending : t.outcome = none)
    (o : Outcome) :
    (kernel program steps (depth + 1)).settle (.tactics token) o w =
      (.ok (), (attempt token o w).2) := by
  have invoked : invoke (kernel program steps (depth + 1)).call (.tactics token) o.methodName
      [o.value] w = attempt token o w :=
    (Exec.bind_ok (access_method known o)).trans
      (congrFun (kernel_call_method program steps depth token o) w)
  rw [attempt_pending known pending] at invoked ⊢
  exact Exec.bind_ok invoked

theorem refuse_eq {α : Type} (refusal : Refusal) (w : World L) :
    ∃ e, e.cause = .refused refusal ∧
      (refuse refusal : Exec (World L) α) w = (.raised e, { w with nextId := w.nextId + 1 }) :=
  ⟨_, rfl, rfl⟩

theorem requireKey_known {key : Value} (known : key.isKey = true) :
    requireKey (L := L) key = pure () := by
  simp only [requireKey, if_pos known]

theorem fetch_known (live : Nat) {key : Value} (known : key.isKey = true) (w : World L) :
    fetch live key w = (.ok (held w live key), w) := by
  simp only [fetch, requireKey_known known]
  rfl

theorem store_known {live : Nat} {key : Value} (known : key.isKey = true) (content : Value)
    (w : World L) :
    store live key content w = (.ok (), setDict live ((w.dict live).put key content) w) := by
  simp only [store, requireKey_known known]
  rfl

theorem fetch_unknown (live : Nat) {key : Value} (unknown : key.isKey = false) (w : World L) :
    ∃ e, e.cause = .refused key.keyRefusal ∧
      fetch live key w = (.raised e, { w with nextId := w.nextId + 1 }) := by
  obtain ⟨e, cause, refused⟩ := refuse_eq (α := Unit) key.keyRefusal w
  refine ⟨e, cause, ?_⟩
  simp only [fetch, requireKey, unknown, Bool.false_eq_true, if_false]
  exact Exec.bind_raised refused

theorem store_unknown (live : Nat) {key : Value} (unknown : key.isKey = false) (content : Value)
    (w : World L) : ∃ e, e.cause = .refused key.keyRefusal ∧
      store live key content w = (.raised e, { w with nextId := w.nextId + 1 }) := by
  obtain ⟨e, cause, refused⟩ := refuse_eq (α := Unit) key.keyRefusal w
  refine ⟨e, cause, ?_⟩
  simp only [store, requireKey, unknown, Bool.false_eq_true, if_false]
  exact Exec.bind_raised refused

end

section

variable {program : Program L} {steps depth id live token : Nat} {t : Token} {D : Nat → Prop}
  {w : World L}

/-- The function that is to modify a content does not come back. -/
def Hangs (call : Value → List Value → Exec (World L) Value) (live : Nat) (w : World L) :
    Operation → List Value → Prop
  | .modify, [key, f] => key.isKey = true ∧ (call f [held w live key] w).1 = .exhausted
  | _, _ => False

/-- How the call of a handler ends: its token is resumed with the answer, or it raises. -/
inductive Called (call : Value → List Value → Exec (World L) Value) (D : Nat → Prop)
    (live token : Nat) (w : World L) (o : Operation) (parameters : List Value) :
    Result Value → World L → Prop where
  | answered {answer w₁} (served : Served call D live w o parameters (.ok answer) w₁)
      (kept : w₁.tokens.get? token = w.tokens.get? token) :
      Called call D live token w o parameters (.ok .nil) (attempt token (.resume answer) w₁).2
  | failed {e w'} (served : Served call D live w o parameters (.error e) w') :
      Called call D live token w o parameters (.raised e) w'
  | stuck {w'} (hangs : Hangs call live w o parameters) :
      Called call D live token w o parameters .exhausted w'

/-- The call of a function that is to modify a content leaves some mappings alone, and the token
that it knows nothing of. -/
def Tame (call : Value → List Value → Exec (World L) Value) (D : Nat → Prop) (live token : Nat)
    (w : World L) : Operation → List Value → Prop
  | .modify, [key, f] => key.isKey = true →
    Same D w (call f [held w live key] w).2 ∧
      (call f [held w live key] w).2.tokens.get? token = w.tokens.get? token
  | _, _ => True

variable (known : w.tokens.get? token = some t) (pending : t.outcome = none)

include known pending

theorem called_get {key : Value} {r : Result Value} {w' : World L}
    (run : callNative (kernel program steps (depth + 1)) (.stateGet live) [key, .tactics token] w =
      (r, w')) :
    Called (kernel program steps (depth + 1)).call D live token w .get [key] r w' := by
  have found : access (.tactics token) "resume" w = _ := access_method known (.resume .nil)
  cases hkey : key.isKey with
  | true =>
    have settled : (kernel program steps (depth + 1)).call (.method (.tactics token) .resume)
        [held w live key] w = (.ok .nil, (attempt token (.resume (held w live key)) w).2) := by
      have called := congrFun
        (kernel_call_method program steps depth token (.resume (held w live key))) w
      rw [attempt_pending known pending] at called ⊢
      exact called
    have got : State.get (kernel program steps (depth + 1)) live key (.tactics token) w =
        (.ok (), (attempt token (.resume (held w live key)) w).2) := by
      simp only [State.get]
      rw [Exec.bind_ok found, Exec.bind_ok (fetch_known live hkey w)]
      exact Exec.bind_ok settled
    obtain ⟨rfl, rfl⟩ := Prod.mk.inj ((Exec.bind_ok got).symm.trans run)
    exact .answered (.get hkey) rfl
  | false =>
    obtain ⟨e, cause, fetched⟩ := fetch_unknown live hkey w
    have got : State.get (kernel program steps (depth + 1)) live key (.tactics token) w =
        (.raised e, { w with nextId := w.nextId + 1 }) := by
      simp only [State.get]
      rw [Exec.bind_ok found]
      exact Exec.bind_raised fetched
    obtain ⟨rfl, rfl⟩ := Prod.mk.inj ((Exec.bind_raised got).symm.trans run)
    exact .failed (.notKey rfl hkey cause rfl)

theorem called_put {key content : Value} {r : Result Value} {w' : World L}
    (run : callNative (kernel program steps (depth + 1)) (.statePut live)
      [key, content, .tactics token] w = (r, w')) :
    Called (kernel program steps (depth + 1)).call D live token w .put [key, content] r w' := by
  cases hkey : key.isKey with
  | true =>
    let w₁ := setDict live ((w.dict live).put key content) w
    have done : State.put (kernel program steps (depth + 1)) live key content (.tactics token) w =
        (.ok (), (attempt token (.resume .nil) w₁).2) := by
      simp only [State.put]
      rw [Exec.bind_ok (store_known hkey content w)]
      exact settle_kernel program steps depth (w := w₁) known pending (.resume .nil)
    obtain ⟨rfl, rfl⟩ := Prod.mk.inj ((Exec.bind_ok done).symm.trans run)
    exact .answered (.put hkey) rfl
  | false =>
    obtain ⟨e, cause, stored⟩ := store_unknown live hkey content w
    have done : State.put (kernel program steps (depth + 1)) live key content (.tactics token) w =
        (.raised e, { w with nextId := w.nextId + 1 }) := Exec.bind_raised stored
    obtain ⟨rfl, rfl⟩ := Prod.mk.inj ((Exec.bind_raised done).symm.trans run)
    exact .failed (.notKey rfl hkey cause rfl)

theorem called_modify {key f : Value} {r : Result Value} {w' : World L}
    (tame : Tame (kernel program steps (depth + 1)).call D live token w .modify [key, f])
    (run : callNative (kernel program steps (depth + 1)) (.stateModify live)
      [key, f, .tactics token] w = (r, w')) :
    Called (kernel program steps (depth + 1)).call D live token w .modify [key, f] r w' := by
  cases hkey : key.isKey with
  | true =>
    obtain ⟨same, kept⟩ := tame hkey
    -- The value is read before the function runs, which leaves the store and the token alone.
    rcases called : (kernel program steps (depth + 1)).call f [held w live key] w with ⟨r₁, w₁⟩
    rw [called] at same kept
    have fetched := fetch_known live hkey w
    cases r₁ with
    | ok new =>
      let w₂ := setDict live ((w₁.dict live).put key new) w₁
      have done : State.modify (kernel program steps (depth + 1)) live key f (.tactics token) w =
          (.ok (), (attempt token (.resume new) w₂).2) := by
        simp only [State.modify]
        rw [Exec.bind_ok fetched, Exec.bind_ok called, Exec.bind_ok (store_known hkey new w₁)]
        exact settle_kernel program steps depth (w := w₂) (kept.trans known) pending (.resume new)
      obtain ⟨rfl, rfl⟩ := Prod.mk.inj ((Exec.bind_ok done).symm.trans run)
      exact .answered (.modify hkey called same) kept
    | raised e =>
      have done : State.modify (kernel program steps (depth + 1)) live key f (.tactics token) w =
          (.raised e, w₁) := by
        simp only [State.modify]
        rw [Exec.bind_ok fetched]
        exact Exec.bind_raised called
      obtain ⟨rfl, rfl⟩ := Prod.mk.inj ((Exec.bind_raised done).symm.trans run)
      exact .failed (.raised hkey called same)
    | exhausted =>
      have done : State.modify (kernel program steps (depth + 1)) live key f (.tactics token) w =
          (.exhausted, w₁) := by
        simp only [State.modify]
        rw [Exec.bind_ok fetched]
        simp only [Bind.bind, Exec.bind, called]
      have stuck := congrArg Prod.fst run
      simp only [callNative, quietly, Bind.bind, Exec.bind, done] at stuck
      rw [← stuck]
      exact .stuck ⟨hkey, congrArg Prod.fst called⟩
  | false =>
    obtain ⟨e, cause, fetched⟩ := fetch_unknown live hkey w
    have done : State.modify (kernel program steps (depth + 1)) live key f (.tactics token) w =
        (.raised e, { w with nextId := w.nextId + 1 }) := Exec.bind_raised fetched
    obtain ⟨rfl, rfl⟩ := Prod.mk.inj ((Exec.bind_raised done).symm.trans run)
    exact .failed (.notKey rfl hkey cause rfl)

omit known pending in
theorem callNative_unsuited (host : Host (World L)) {o : Operation} {parameters : List Value}
    (unsuited : parameters.length ≠ o.arity) {i : Nat} {f : Native Value}
    (handler : o.handler id live = .native i f) :
    callNative host f (parameters ++ [.tactics token]) = refuse .unsuited := by
  cases o <;> obtain ⟨rfl, rfl⟩ := Value.native.inj handler <;>
    rcases parameters with _ | ⟨_, _ | ⟨_, _ | ⟨_, _ | ⟨_, rest⟩⟩⟩⟩ <;>
    first
    | rfl
    | exact absurd rfl unsuited

theorem called_handler {o : Operation} {parameters : List Value} {r : Result Value} {w' : World L}
    (tame : Tame (kernel program steps (depth + 1)).call D live token w o parameters)
    (run : (kernel program steps (depth + 2)).call (o.handler id live)
      (parameters ++ [.tactics token]) w = (r, w')) :
    Called (kernel program steps (depth + 1)).call D live token w o parameters r w' := by
  by_cases suited : parameters.length = o.arity
  · cases o with
    | get =>
      obtain ⟨key, rfl⟩ := List.length_eq_one_iff.mp suited
      exact called_get known pending run
    | put =>
      obtain ⟨key, content, rfl⟩ := List.length_eq_two.mp suited
      exact called_put known pending run
    | modify =>
      obtain ⟨key, f, rfl⟩ := List.length_eq_two.mp suited
      exact called_modify known pending tame run
  · obtain ⟨i, f, handler⟩ : ∃ i f, o.handler id live = .native i f := by
      cases o <;> exact ⟨_, _, rfl⟩
    rw [handler] at run
    have refused : (kernel program steps (depth + 2)).call (.native i f)
        (parameters ++ [.tactics token]) = refuse .unsuited :=
      callNative_unsuited (kernel program steps (depth + 1)) suited handler
    obtain ⟨e, cause, raised⟩ := refuse_eq (α := Value) .unsuited w
    rw [refused] at run
    obtain ⟨rfl, rfl⟩ := Prod.mk.inj (raised.symm.trans run)
    exact .failed (.unsuited suited cause rfl)

end

/-! ## The reaction of a loop -/

section

variable {program : Program L} {steps depth id live : Nat} {D : Nat → Prop} {x : Value}
  {o : Operation} {parameters : List Value} {w : World L}

/-- The world in which an action is answered: its token is resumed, and that is noted. -/
def resumed (x : Value) (token : Nat) (answer : Value) (w : World L) : World L :=
  (note (.resumed x) (attempt token (.resume answer) w).2).2

/-- What a loop decides about an action for a store. The handler is called with a new token. -/
inductive Decided (call : Value → List Value → Exec (World L) Value) (D : Nat → Prop)
    (live : Nat) (w : World L) (x : Value) (o : Operation) (parameters : List Value) :
    Result Dispatch.Decision → World L → Prop where
  | answered {answer w₁}
      (served : Served call D live (w.addToken x).2 o parameters (.ok answer) w₁) :
      Decided call D live w x o parameters (.ok (.proceed answer))
        (resumed x w.tokens.next answer w₁)
  | failed {e w'} (served : Served call D live (w.addToken x).2 o parameters (.error e) w') :
      Decided call D live w x o parameters (.raised e) w'
  | stuck {w'} (hangs : Hangs call live (w.addToken x).2 o parameters) :
      Decided call D live w x o parameters .exhausted w'

theorem new_token (x : Value) (w : World L) :
    (w.addToken x).2.tokens.get? w.tokens.next = some (.pending x w.nextId) :=
  w.tokens.get?_add _

theorem handler_callable (o : Operation) : (o.handler id live).isCallable = true := by
  cases o <;> rfl

theorem react_resumed {table : Table} {entry answer returned : Value} {w₁ : World L}
    (claimed : table.claim x = .entry entry) (callable : entry.isCallable = true)
    (called : (kernel program steps (depth + 2)).call entry
      (Dispatch.parametersOf x ++ [.tactics w.tokens.next]) (w.addToken x).2 =
        (.ok returned, (attempt w.tokens.next (.resume answer) w₁).2))
    (plain : returned.computation? = none)
    (kept : w₁.tokens.get? w.tokens.next = (w.addToken x).2.tokens.get? w.tokens.next) :
    react (kernel program steps (depth + 2)) table (.suspended x) w =
      (.ok (.proceed answer), resumed x w.tokens.next answer w₁) := by
  have issued : (kernel program steps (depth + 2)).issue x w =
      (.ok w.tokens.next, (w.addToken x).2) := rfl
  have pending := kept.trans (new_token x w)
  have recorded : (kernel program steps (depth + 2)).outcome w.tokens.next
      (attempt w.tokens.next (.resume answer) w₁).2 =
        (.ok (some (.resume answer)), (attempt w.tokens.next (.resume answer) w₁).2) := by
    rw [attempt_pending pending rfl]
    refine Prod.ext (congrArg Result.ok ?_) rfl
    exact congrArg (·.bind (·.outcome)) (Pool.get?_set_self pending _)
  rw [react, Dispatch.resolve_call claimed callable, callHandler, Exec.bind_ok issued,
    Exec.bind_ok called, plain]
  exact Exec.bind_ok recorded

theorem react_asked (asks : asked x = some (o, parameters))
    (tame : Tame (kernel program steps (depth + 1)).call D live w.tokens.next (w.addToken x).2 o
      parameters) {r : Result Dispatch.Decision} {w' : World L}
    (run : react (kernel program steps (depth + 2)) (table id live) (.suspended x) w = (r, w')) :
    Decided (kernel program steps (depth + 1)).call D live w x o parameters r w' := by
  obtain ⟨claimed, own⟩ := claim_asked id live asks
  have issued : (kernel program steps (depth + 2)).issue x w =
      (.ok w.tokens.next, (w.addToken x).2) := rfl
  have reacts : react (kernel program steps (depth + 2)) (table id live) (.suspended x) =
      callHandler (kernel program steps (depth + 2)) (o.handler id live) x parameters := by
    rw [react, Dispatch.resolve_call claimed (handler_callable o), own]
  rcases called : (kernel program steps (depth + 2)).call (o.handler id live)
    (parameters ++ [.tactics w.tokens.next]) (w.addToken x).2 with ⟨r₁, w₁⟩
  rcases called_handler (new_token x w) rfl tame called with ⟨served, kept⟩ | served | hangs
  · rw [react_resumed claimed (handler_callable o) (own ▸ called) rfl kept] at run
    obtain ⟨rfl, rfl⟩ := Prod.mk.inj run
    exact .answered served
  · rw [reacts, callHandler, Exec.bind_ok issued, Exec.bind_raised called] at run
    obtain ⟨rfl, rfl⟩ := Prod.mk.inj run
    exact .failed served
  · rw [reacts, callHandler, Exec.bind_ok issued, Exec.bind_exhausted called] at run
    obtain ⟨rfl, rfl⟩ := Prod.mk.inj run
    exact .stuck hangs

end

end State

end OneShot.World
