import OneShot.Dispatch
import OneShot.Proofs.Driving

/-!
# The dispatch loop without a bound

`Runs` says how the loop ends, with no count of its rounds. The loop ends so within some bound, and
only so.
-/

namespace OneShot

/-- Services that only the bound holds back: a drive or a call that ends, ends in the same way
within a larger bound. -/
structure Host.Growing {W : Type} (host : Nat → Host W) : Prop where
  drive : ∀ n v, Exec.Growing fun b => (host b).drive n v
  call : ∀ f arguments, Exec.Growing fun b => (host b).call f arguments
  issue : ∀ b, (host b).issue = (host 0).issue
  outcome : ∀ b, (host b).outcome = (host 0).outcome
  note : ∀ b, (host b).note = (host 0).note
  mint : ∀ b, (host b).mint = (host 0).mint

theorem Host.growing_const {W : Type} (host : Host W) : Host.Growing fun _ => host where
  drive _ _ := Exec.growing_const _
  call _ _ := Exec.growing_const _
  issue _ := rfl
  outcome _ := rfl
  note _ := rfl
  mint _ := rfl

theorem Value.eq_of_computation? {v : Value} {n : Nat} (h : v.computation? = some n) :
    v = .computation n := by
  cases v with
  | computation m => exact congrArg _ (Option.some.inj h)
  | _ => cases h

namespace Dispatch

variable {W : Type}

/-- The computation that handles a source with a table. -/
def handling (host : Host W) (table : Table) (source : Source W) (bound : Nat) :
    Source (W × Life Phase) :=
  Source.ofBody host.mint (advance host table source bound)

/-- How the loop goes on from a decision, or from an error in place of one. -/
inductive Runs (host : Nat → Host W) (table : Table) (source : Nat → Source W) :
    Except Error Decision → W → Except Error (Move Phase) → W → Prop where
  | failed {e w} : Runs host table source (.error e) w (.error e) w
  | stop {move w} : Runs host table source (.ok (.stop move)) w (.ok move) w
  /-- The source raises. -/
  | broken {v w e w'} (drive : Exec.Ends (source · v) w (.error e) w') :
      Runs host table source (.ok (.proceed v)) w (.error e) w'
  | round {v w step w₁ d w₂ o w'} (drive : Exec.Ends (source · v) w (.ok step) w₁)
      (reacts : Exec.Ends (fun b => react (host b) table step) w₁ d w₂)
      (rest : Runs host table source d w₂ o w') :
      Runs host table source (.ok (.proceed v)) w o w'

section Growing

variable {host : Nat → Host W} (growing : Host.Growing host)

include growing

theorem growing_fail {α : Type} (cause : Cause Value) :
    Exec.Growing fun b => ((host b).fail cause : Exec W α) := by
  simp only [Host.fail, growing.mint]
  exact Exec.growing_const _

theorem growing_conclude (action : Value) (token : Nat) :
    Exec.Growing fun b => conclude (host b) action token := by
  simp only [conclude, growing.outcome, growing.note, Host.fail, growing.mint]
  exact Exec.growing_const _

theorem growing_runBody (n : Nat) (action : Value) (token : Nat) (v : Value) :
    Exec.Growing fun b => runBody (host b) n action token v := by
  refine (growing.drive n v).bind fun step => ?_
  cases step with
  | suspended x => exact Exec.growing_const _
  | completed r => exact growing_conclude growing action token

theorem growing_callHandler (handler action : Value) (parameters : List Value) :
    Exec.Growing fun b => callHandler (host b) handler action parameters := by
  simp only [callHandler, growing.issue, growing.note]
  refine (Exec.growing_const _).bind fun token => (growing.call _ _).bind fun returned => ?_
  cases returned.computation? with
  | none => exact growing_conclude growing action token
  | some n =>
    exact (Exec.growing_const _).bind fun _ => growing_runBody growing n action token .nil

theorem growing_resolve (table : Table) (yielded : Value) :
    Exec.Growing fun b => resolve (host b) table yielded := by
  simp only [resolve, growing.note]
  cases table.claim yielded with
  | notKey name => exact growing_fail growing _
  | unclaimed => exact Exec.growing_const _
  | entry entry =>
    by_cases h : entry.isCallable
    · simp only [if_pos h]
      exact growing_callHandler growing entry yielded _
    · simp only [if_neg h]
      exact Exec.growing_const _

theorem growing_react (table : Table) (step : Step) :
    Exec.Growing fun b => react (host b) table step := by
  cases step with
  | suspended yielded => exact growing_resolve growing table yielded
  | completed result => exact Exec.growing_const _

theorem growing_takeUp (phase : Phase) (v : Value) :
    Exec.Growing fun b => takeUp (host b) phase v := by
  cases phase with
  | start => exact Exec.growing_const _
  | forwarding => exact Exec.growing_const _
  | handlerBody n action token => exact growing_runBody growing n action token v

end Growing

section Ends

variable {host : Nat → Host W} {table : Table} {source : Nat → Source W}
  (growing : Host.Growing host) (steady : ∀ v, Exec.Growing (source · v))

include growing steady

theorem proceed_mono {b b' n n' : Nat} {d : Decision} {w w' : W} {o : Except Error (Move Phase)}
    (hb : b ≤ b') (hn : n ≤ n') (h : proceed (host b) table (source b) n d w = (.of o, w')) :
    proceed (host b') table (source b') n' d w = (.of o, w') := by
  induction n generalizing n' d w with
  | zero =>
    cases d with
    | stop move => simpa only [proceed] using h
    | proceed v => exact absurd (congrArg Prod.fst h).symm (Result.of_ne_exhausted o)
  | succ n ih =>
    cases d with
    | stop move => simpa only [proceed] using h
    | proceed v =>
      obtain ⟨n', rfl⟩ : ∃ m, n' = m + 1 := ⟨n' - 1, by omega⟩
      simp only [proceed] at h ⊢
      rw [Exec.bind_eq_of] at h ⊢
      rcases h with ⟨e, rfl, h⟩ | ⟨step, w₁, drive, h⟩
      · exact Or.inl ⟨e, rfl, steady v hb (o := .error e) h⟩
      refine Or.inr ⟨step, w₁, steady v hb (o := .ok step) drive, ?_⟩
      rw [Exec.bind_eq_of] at h ⊢
      rcases h with ⟨e, rfl, h⟩ | ⟨d, w₂, reacts, rest⟩
      · exact Or.inl ⟨e, rfl, growing_react growing table step hb (o := .error e) h⟩
      exact Or.inr ⟨d, w₂, growing_react growing table step hb (o := .ok d) reacts,
        ih (by omega) rest⟩

omit growing steady in
theorem runs_of_proceed {b n : Nat} {d : Decision} {w w' : W} {o : Except Error (Move Phase)}
    (h : proceed (host b) table (source b) n d w = (.of o, w')) :
    Runs host table source (.ok d) w o w' := by
  induction n generalizing d w with
  | zero =>
    cases d with
    | stop move =>
      obtain ⟨rfl, rfl⟩ := Exec.pure_eq_of.mp (by simpa only [proceed] using h)
      exact .stop
    | proceed v => exact absurd (congrArg Prod.fst h).symm (Result.of_ne_exhausted o)
  | succ n ih =>
    cases d with
    | stop move =>
      obtain ⟨rfl, rfl⟩ := Exec.pure_eq_of.mp (by simpa only [proceed] using h)
      exact .stop
    | proceed v =>
      simp only [proceed] at h
      rw [Exec.bind_eq_of] at h
      rcases h with ⟨e, rfl, h⟩ | ⟨step, w₁, drive, h⟩
      · exact .broken ⟨b, h⟩
      rw [Exec.bind_eq_of] at h
      rcases h with ⟨e, rfl, h⟩ | ⟨d, w₂, reacts, rest⟩
      · exact .round (d := .error e) ⟨b, drive⟩ ⟨b, h⟩ .failed
      · exact .round (d := .ok d) ⟨b, drive⟩ ⟨b, reacts⟩ (ih rest)

theorem proceed_of_runs {d : Except Error Decision} {w w' : W} {o : Except Error (Move Phase)}
    (h : Runs host table source d w o w') :
    match d with
    | .error e => o = .error e ∧ w' = w
    | .ok d => ∃ b, proceed (host b) table (source b) b d w = (.of o, w') := by
  induction h with
  | failed => exact ⟨rfl, rfl⟩
  | stop => exact ⟨0, by simp only [proceed]; rfl⟩
  | @broken v w e w' drive =>
    obtain ⟨b, drive⟩ := drive
    refine ⟨b + 1, ?_⟩
    simp only [proceed]
    exact Exec.bind_raised (steady v (Nat.le_succ b) drive)
  | @round v w step w₁ d w₂ o w' drive reacts rest ih =>
    -- The drive, the reaction and the rest have bounds of their own. The largest does for all.
    obtain ⟨b₁, drive⟩ := drive
    obtain ⟨b₂, reacts⟩ := reacts
    cases d with
    | error e =>
      obtain ⟨rfl, rfl⟩ := ih
      have h₁ : b₁ ≤ max b₁ b₂ + 1 := by omega
      refine ⟨max b₁ b₂ + 1, ?_⟩
      simp only [proceed]
      rw [Exec.bind_ok (steady v h₁ drive)]
      exact Exec.bind_raised (growing_react growing table step (by omega) reacts)
    | ok d =>
      obtain ⟨b₃, rest⟩ := ih
      have h₁ : b₁ ≤ max b₁ (max b₂ b₃) + 1 := by omega
      have h₂ : b₂ ≤ max b₁ (max b₂ b₃) + 1 := by omega
      refine ⟨max b₁ (max b₂ b₃) + 1, ?_⟩
      simp only [proceed]
      rw [Exec.bind_ok (steady v h₁ drive),
        Exec.bind_ok (growing_react growing table step h₂ reacts)]
      exact proceed_mono growing steady (by omega) (by omega) rest

theorem ends_proceed {x : Nat → Exec W Decision} (hx : Exec.Growing x) {w w' : W}
    {o : Except Error (Move Phase)} :
    Exec.Ends (fun b => do proceed (host b) table (source b) b (← x b)) w o w' ↔
      ∃ d w₁, Exec.Ends x w d w₁ ∧ Runs host table source d w₁ o w' := by
  have loop (d : Decision) : Exec.Growing fun b => proceed (host b) table (source b) b d :=
    fun _ _ _ _ _ hb h => proceed_mono growing steady hb hb h
  rw [Exec.ends_bind hx loop]
  constructor
  · rintro (⟨e, rfl, h⟩ | ⟨d, w₁, h, b, rest⟩)
    · exact ⟨.error e, w', h, .failed⟩
    · exact ⟨.ok d, w₁, h, runs_of_proceed rest⟩
  · rintro ⟨d, w₁, h, runs⟩
    have rest := proceed_of_runs growing steady runs
    cases d with
    | error e =>
      obtain ⟨rfl, rfl⟩ := rest
      exact Or.inl ⟨e, rfl, h⟩
    | ok d => exact Or.inr ⟨d, w₁, h, rest⟩

theorem growing_advance (phase : Phase) (v : Value) :
    Exec.Growing fun b => advance (host b) table (source b) b phase v :=
  (growing_takeUp growing phase v).bind fun _ _ _ _ _ _ hb h =>
    proceed_mono growing steady hb hb h

theorem growing_handling (v : Value) :
    Exec.Growing fun b => handling (host b) table (source b) b v := by
  simp only [handling, growing.mint]
  exact Source.growing_ofBody (fun phase v => growing_advance growing steady phase v) v

theorem ends_handling {v : Value} {w w' : W} {l l' : Life Phase} {sight : Sight} :
    Exec.Ends (fun b => handling (host b) table (source b) b v) (w, l) sight (w', l') ↔
      Drives (host 0).mint (fun phase v w o w' => ∃ d w₁,
        Exec.Ends (fun b => takeUp (host b) phase v) w d w₁ ∧ Runs host table source d w₁ o w')
        l v w sight l' w' := by
  simp only [handling, growing.mint, Source.ends_ofBody]
  constructor
  all_goals
    intro h
    refine h.imp fun phase v w o w' run => ?_
    simpa only [advance, ends_proceed growing steady (growing_takeUp growing phase v)] using run

theorem handling_entered {l l' : Life Phase} {v u : Value} {phase : Phase}
    (entry : l.enters? v = some (phase, u)) {w w' : W} {sight : Sight} :
    Exec.Ends (fun b => handling (host b) table (source b) b v) (w, l) sight (w', l') ↔
      ∃ d w₁ o w₂, Exec.Ends (fun b => takeUp (host b) phase u) w d w₁ ∧
        Runs host table source d w₁ o w₂ ∧ Life.seal (host 0).mint o w₂ = (.of sight, w') ∧
        l' = Life.left o := by
  rw [ends_handling growing steady, Drives.entered_iff entry]
  constructor
  · rintro ⟨o, w₂, ⟨d, w₁, taken, runs⟩, sealed, left⟩
    exact ⟨d, w₁, o, w₂, taken, runs, sealed, left⟩
  · rintro ⟨d, w₁, o, w₂, taken, runs, sealed, left⟩
    exact ⟨o, w₂, ⟨d, w₁, taken, runs⟩, sealed, left⟩

theorem handling_finished {l' : Life Phase} {v : Value} {w w' : W} {sight : Sight} :
    Exec.Ends (fun b => handling (host b) table (source b) b v) (w, .finished) sight (w', l') ↔
      sight = .ok (.completed .nil) ∧ l' = .finished ∧ w' = w := by
  rw [ends_handling growing steady, Drives.finished_iff]

end Ends

/-! ## Services and a source that have no bound -/

section Const

variable {host : Host W} {table : Table} {c : Source W}

theorem steady_handling (v : Value) : Exec.Growing fun b => handling host table c b v :=
  @growing_handling W (fun _ => host) table (fun _ => c) (Host.growing_const host)
    (fun _ => Exec.growing_const _) v

theorem handling_entered_const {l l' : Life Phase} {v u : Value} {phase : Phase}
    (entry : l.enters? v = some (phase, u)) {w w' : W} {sight : Sight} :
    Exec.Ends (fun b => handling host table c b v) (w, l) sight (w', l') ↔
      ∃ d w₁ o w₂, takeUp host phase u w = (.of d, w₁) ∧
        Runs (fun _ => host) table (fun _ => c) d w₁ o w₂ ∧
        Life.seal host.mint o w₂ = (.of sight, w') ∧ l' = Life.left o := by
  have h := @handling_entered W (fun _ => host) table (fun _ => c) (Host.growing_const host)
    (fun _ => Exec.growing_const _) l l' v u phase entry w w' sight
  simpa only [Exec.ends_const] using h

theorem handling_finished_const {l' : Life Phase} {v : Value} {w w' : W} {sight : Sight} :
    Exec.Ends (fun b => handling host table c b v) (w, .finished) sight (w', l') ↔
      sight = .ok (.completed .nil) ∧ l' = .finished ∧ w' = w :=
  @handling_finished W (fun _ => host) table (fun _ => c) (Host.growing_const host)
    (fun _ => Exec.growing_const _) l' v w w' sight

end Const

/-! ## Tables that claim the same -/

section Congr

variable {host : Host W} {table table' : Table}

theorem resolve_congr {v : Value} (h : table.claim v = table'.claim v) :
    resolve host table v = resolve host table' v := by
  simp only [resolve, h]

theorem advance_congr (h : ∀ v, table.claim v = table'.claim v) (source : Source W) (bound : Nat) :
    advance host table source bound = advance host table' source bound := by
  have reacts : react host table = react host table' := by
    funext step
    cases step with
    | suspended v => exact resolve_congr (h v)
    | completed r => rfl
  have proceeds (n : Nat) (d : Decision) :
      proceed host table source n d = proceed host table' source n d := by
    induction n generalizing d with
    | zero => cases d <;> simp only [proceed]
    | succ n ih => cases d <;> simp only [proceed, reacts, ih]
  funext phase v
  simp only [advance, proceeds]

theorem handling_congr (h : ∀ v, table.claim v = table'.claim v) (source : Source W) :
    handling host table source = handling host table' source := by
  funext bound
  simp only [handling, advance_congr h]

theorem resolve_call {v f : Value} (h : table.claim v = .entry f) (callable : f.isCallable = true) :
    resolve host table v = callHandler host f v (parametersOf v) := by
  simp only [resolve, h, if_pos callable]

theorem resolve_unclaimed (quiet : ∀ n, host.note n = pure ()) {v : Value}
    (h : table.claim v = .unclaimed) :
    resolve host table v = pure (.stop (.suspend v .forwarding)) := by
  simp only [resolve, h, quiet, pure_bind]

end Congr

/-! ## A handler, in parts -/

/-- What follows from the decision of a token once the handler of its action has ended. -/
def conclusion (host : Host W) (action : Value) : Option Outcome → Exec W Decision
  | none => host.fail (.contract action (.str Token.neverSettled))
  | some (.abort v) => do
    host.note (.aborted action)
    return .stop (.complete v)
  | some (.resume v) => do
    host.note (.resumed action)
    return .proceed v

theorem conclude_eq (host : Host W) (action : Value) (token : Nat) :
    conclude host action token = host.outcome token >>= conclusion host action := rfl

/-- Calls a handler. This gives the token of the action and the computation that was returned. -/
def called (host : Host W) (handler action : Value) (parameters : List Value) :
    Exec W (Nat × Option Nat) := do
  let token ← host.issue action
  let returned ← host.call handler (parameters ++ [.tactics token])
  return (token, returned.computation?)

/-- Goes on with an action whose handler was called. -/
def afterCall (host : Host W) (action : Value) : Nat × Option Nat → Exec W Decision
  | (token, none) => conclude host action token
  | (token, some n) => runBody host n action token .nil

/-- What becomes of an action once its handler was called. -/
def Called (host : Host W) (action : Value) (w : W) (d : Except Error Decision) (w' : W) :
    Except Error (Nat × Option Nat) → Prop
  | .error e => d = .error e ∧ w' = w
  | .ok (token, none) => conclude host action token w = (.of d, w')
  | .ok (token, some n) => runBody host n action token .nil w = (.of d, w')

/-- What becomes of an action once the computation of its handler was driven. -/
def Driven (host : Host W) (n : Nat) (action : Value) (token : Nat) (w : W)
    (d : Except Error Decision) (w' : W) : Sight → Prop
  | .error e => d = .error e ∧ w' = w
  | .ok (.suspended x) => d = .ok (.stop (.suspend x (.handlerBody n action token))) ∧ w' = w
  | .ok (.completed _) => conclude host action token w = (.of d, w')

section Parts

variable {host : Host W} {action : Value} {w w' : W} {d : Except Error Decision}

theorem callHandler_called (quiet : ∀ n, host.note n = pure ()) (handler action : Value)
    (parameters : List Value) :
    callHandler host handler action parameters =
      called host handler action parameters >>= afterCall host action := by
  simp only [callHandler, called, quiet, bind_assoc, pure_bind]
  congr 1
  funext token
  congr 1
  funext returned
  cases returned.computation? <;> rfl

theorem callHandler_parts (quiet : ∀ n, host.note n = pure ()) (handler action : Value)
    (parameters : List Value) :
    callHandler host handler action parameters = (do
      let token ← host.issue action
      let returned ← host.call handler (parameters ++ [.tactics token])
      afterCall host action (token, returned.computation?)) := by
  simp only [callHandler_called quiet, called, bind_assoc, pure_bind]

theorem callHandler_eq (quiet : ∀ n, host.note n = pure ()) {handler : Value}
    {parameters : List Value} :
    callHandler host handler action parameters w = (.of d, w') ↔
      ∃ r w₁, called host handler action parameters w = (.of r, w₁) ∧
        Called host action w₁ d w' r := by
  rw [callHandler_called quiet, Exec.bind_eq_of]
  constructor
  · rintro (⟨e, rfl, h⟩ | ⟨⟨token, n⟩, w₁, h, rest⟩)
    · exact ⟨.error e, w', h, rfl, rfl⟩
    · refine ⟨.ok (token, n), w₁, h, ?_⟩
      cases n <;> exact rest
  · rintro ⟨e | ⟨token, n⟩, w₁, h, rest⟩
    · obtain ⟨rfl, rfl⟩ := rest
      exact Or.inl ⟨e, rfl, h⟩
    · refine Or.inr ⟨(token, n), w₁, h, ?_⟩
      cases n <;> exact rest

theorem runBody_eq {n token : Nat} {v : Value} :
    runBody host n action token v w = (.of d, w') ↔
      ∃ sight w₁, host.drive n v w = (.of sight, w₁) ∧
        Driven host n action token w₁ d w' sight := by
  rw [runBody, Exec.bind_eq_of]
  constructor
  · rintro (⟨e, rfl, h⟩ | ⟨step, w₁, h, rest⟩)
    · exact ⟨.error e, w', h, rfl, rfl⟩
    · refine ⟨.ok step, w₁, h, ?_⟩
      cases step with
      | suspended x => exact Exec.pure_eq_of.mp rest
      | completed r => exact rest
  · rintro ⟨e | x | r, w₁, h, rest⟩
    · obtain ⟨rfl, rfl⟩ := rest
      exact Or.inl ⟨e, rfl, h⟩
    · exact Or.inr ⟨_, w₁, h, Exec.pure_eq_of.mpr rest⟩
    · exact Or.inr ⟨_, w₁, h, rest⟩

end Parts

/-! ## Where a loop suspends -/

/-- A decision about an action whose handler was called: the loop suspends only with what the
computation of the handler yields. -/
def About (action : Value) : Except Error Decision → Prop
  | .ok (.stop (.suspend _ phase)) => ∃ n token, phase = .handlerBody n action token
  | _ => True

section About

variable {host : Host W} {action : Value} {w w' : W} {d : Except Error Decision}

theorem error_of_fail {α : Type} {cause : Cause Value} {o : Except Error α}
    (h : host.fail cause w = (.of o, w')) : ∃ e, o = .error e := by
  rcases Exec.bind_eq_of.mp h with ⟨e, rfl, _⟩ | ⟨e, w₁, _, h⟩
  · exact ⟨e, rfl⟩
  · cases o with
    | error e => exact ⟨e, rfl⟩
    | ok a => cases congrArg Prod.fst h

/-- A decision with which the loop does not suspend. -/
def Settled : Except Error Decision → Prop
  | .ok (.stop (.suspend _ _)) => False
  | _ => True

theorem Settled.about (h : Settled d) : About action d := by
  match d with
  | .error e => trivial
  | .ok (.proceed v) => trivial
  | .ok (.stop (.complete r)) => trivial

theorem settled_conclude {token : Nat} (h : conclude host action token w = (.of d, w')) :
    Settled d := by
  rcases Exec.bind_eq_of.mp h with ⟨e, rfl, _⟩ | ⟨o, w₁, _, h⟩
  · trivial
  rcases o with _ | ⟨v | v⟩
  · obtain ⟨e, rfl⟩ := error_of_fail h
    trivial
  all_goals
    rcases Exec.bind_eq_of.mp h with ⟨e, rfl, _⟩ | ⟨_, w₂, _, h⟩
    · trivial
    · obtain ⟨rfl, rfl⟩ := Exec.pure_eq_of.mp h
      trivial

theorem about_runBody {n token : Nat} {v : Value}
    (h : runBody host n action token v w = (.of d, w')) : About action d := by
  rcases Exec.bind_eq_of.mp h with ⟨e, rfl, _⟩ | ⟨step, w₁, _, h⟩
  · trivial
  cases step with
  | suspended x =>
    obtain ⟨rfl, rfl⟩ := Exec.pure_eq_of.mp h
    exact ⟨n, token, rfl⟩
  | completed r => exact (settled_conclude h).about

theorem about_callHandler {handler : Value} {parameters : List Value}
    (h : callHandler host handler action parameters w = (.of d, w')) : About action d := by
  rcases Exec.bind_eq_of.mp h with ⟨e, rfl, _⟩ | ⟨token, w₁, _, h⟩
  · trivial
  rcases Exec.bind_eq_of.mp h with ⟨e, rfl, _⟩ | ⟨returned, w₂, _, h⟩
  · trivial
  cases hn : returned.computation? with
  | none =>
    simp only [hn] at h
    exact (settled_conclude h).about
  | some n =>
    simp only [hn] at h
    rcases Exec.bind_eq_of.mp h with ⟨e, rfl, _⟩ | ⟨_, w₃, _, h⟩
    · trivial
    · exact about_runBody h

theorem about_resolve {table : Table} (claimed : table.claim action ≠ .unclaimed)
    (h : resolve host table action w = (.of d, w')) : About action d := by
  unfold resolve at h
  cases hclaim : table.claim action with
  | unclaimed => exact absurd hclaim claimed
  | notKey name =>
    simp only [hclaim] at h
    obtain ⟨e, rfl⟩ := error_of_fail h
    trivial
  | entry entry =>
    simp only [hclaim] at h
    split at h
    · exact about_callHandler h
    · rcases Exec.bind_eq_of.mp h with ⟨e, rfl, _⟩ | ⟨_, w₂, _, h⟩
      · trivial
      · obtain ⟨rfl, rfl⟩ := Exec.pure_eq_of.mp h
        trivial

end About

/-! ## The loop in a larger world -/

section Beside

variable {X : Type} (host : Host W)

@[simp] theorem fail_beside {α : Type} (cause : Cause Value) :
    (host.beside.fail cause : Exec (W × X) α) = (host.fail cause).beside := by
  simp [Host.fail]

@[simp] theorem conclude_beside (action : Value) (token : Nat) :
    conclude (host.beside : Host (W × X)) action token = (conclude host action token).beside := by
  simp only [conclude, Host.beside_outcome, Exec.beside_bind]
  congr 1
  funext o
  rcases o with _ | ⟨v | v⟩ <;> simp

@[simp] theorem runBody_beside (n : Nat) (action : Value) (token : Nat) (v : Value) :
    runBody (host.beside : Host (W × X)) n action token v =
      (runBody host n action token v).beside := by
  simp only [runBody, Host.beside_drive, Exec.beside_bind]
  congr 1
  funext step
  cases step <;> simp

@[simp] theorem callHandler_beside (handler action : Value) (parameters : List Value) :
    callHandler (host.beside : Host (W × X)) handler action parameters =
      (callHandler host handler action parameters).beside := by
  simp only [callHandler, Host.beside_issue, Host.beside_call, Exec.beside_bind]
  congr 1
  funext token
  congr 1
  funext returned
  cases returned.computation? <;> simp

@[simp] theorem resolve_beside (table : Table) (v : Value) :
    resolve (host.beside : Host (W × X)) table v = (resolve host table v).beside := by
  simp only [resolve]
  cases table.claim v with
  | notKey name => simp
  | unclaimed => simp
  | entry entry => by_cases h : entry.isCallable <;> simp [h]

@[simp] theorem react_beside (table : Table) (step : Step) :
    react (host.beside : Host (W × X)) table step = (react host table step).beside := by
  cases step <;> simp [react]

@[simp] theorem takeUp_beside (phase : Phase) (v : Value) :
    takeUp (host.beside : Host (W × X)) phase v = (takeUp host phase v).beside := by
  cases phase <;> simp [takeUp]

theorem seal_beside {S : Type} (o : Except Error (Move S)) :
    Life.seal (host.beside : Host (W × X)).mint o = (Life.seal host.mint o).beside := by
  cases o with
  | ok move => rfl
  | error e => by_cases h : e.kind = .stopIteration <;> simp [Life.seal, h]

end Beside

end Dispatch

end OneShot
