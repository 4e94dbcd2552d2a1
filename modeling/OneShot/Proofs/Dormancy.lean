import OneShot.Kernel
import OneShot.Proofs.Answering
import OneShot.Proofs.Turns

/-!
# A source that waits

The life of a source stands beside the world. If nothing but the loop around it drives the source,
its life stays as its last drive has left it.
-/

namespace OneShot

open Protocol Exec

variable {U S : Type} {host : Host U} {tokens : U → Nat → Option Token}

/-- The run leaves alone what stands beside the world. -/
def Exec.Spares {α : Type} (x : Exec (U × S) α) : Prop := ∀ w, (x w).2.2 = w.2

/-! ## A world and what stands beside it -/

section

variable {L : Language} {X : Type} {drive : Nat → Value → Exec (World L × X) Step}
  {call : Value → List Value → Exec (World L × X) Value}

/-- The tokens of the world. -/
def World.tokensIn (w : World L × X) : Nat → Option Token := w.1.tokens.get?

/-- The services of a world, where calls and drives may reach what stands beside it. -/
def World.hostBeside (drive : Nat → Value → Exec (World L × X) Step)
    (call : Value → List Value → Exec (World L × X) Value) : Host (World L × X) where
  drive := drive
  call := call
  issue action := (World.issue action).beside
  outcome token := (World.outcome token).beside
  settle tactics o := do
    let method ← (World.access tactics o.methodName).beside
    let _ ← call method [o.value]
  note n := (World.note n).beside
  mint cause := (World.mint cause).beside

theorem World.lawful_hostBeside (drive : Nat → Value → Exec (World L × X) Step)
    (call : Value → List Value → Exec (World L × X) Value) :
    (hostBeside drive call).Lawful tokensIn where
  mints _ _ := ⟨_, _, rfl, rfl⟩
  notes _ _ := ⟨_, rfl⟩
  issues action w := by
    refine ⟨w.1.tokens.next, _, .pending action w.1.nextId, rfl, ?_, w.1.tokens.get?_add _, rfl,
      rfl⟩
    simp [tokensIn, Pool.get?, Pool.next]
  reads _ _ := rfl

theorem World.tokens_note (n : Note) (w : World L) : (World.note n w).2.tokens = w.tokens := by
  simp only [World.note, Exec.modify]
  split <;> rfl

theorem World.tokensIn_note (n : Note) (w : World L × X) :
    tokensIn ((hostBeside drive call).note n w).2 = tokensIn w :=
  congrArg Pool.get? (World.tokens_note n w.1)

theorem Served.spares (drives : ∀ n v, (drive n v).Spares)
    (calls : ∀ f arguments, (call f arguments).Spares) {w w' : World L × X} {a : Act}
    (served : Served (World.hostBeside drive call) World.tokensIn w a w') : w'.2 = w.2 := by
  cases served with
  | drove => exact drives _ _ w
  | called => exact calls _ _ w
  | _ => rfl

end

/-! ## The life of a source -/

theorem Source.left_of_suspended {mint : Cause Value → Exec U Error}
    {body : S → Value → Exec U (Move S)} {v x : Value} {w : U × Life S}
    (h : (ofBody mint body v w).1 = .ok (.suspended x)) :
    ∃ s, (ofBody mint body v w).2.2 = .suspended s := by
  obtain ⟨u, l⟩ := w
  rcases hdrive : ofBody mint body v (u, l) with ⟨r, u', l'⟩
  rw [hdrive] at h
  obtain rfl : r = .ok (.suspended x) := h
  have drives : Drives mint (fun s v w o w' => body s v w = (.of o, w')) l v u (.ok (.suspended x))
      l' u' := ofBody_eq.mp hdrive
  -- Only a body can give a suspension, so the drive has entered it, and it has suspended.
  generalize hsight : (Except.ok (Step.suspended x) : Sight) = sight at drives
  cases drives with
  | finished => cases hsight
  | running refused =>
    rcases bind_eq_of.mp refused with ⟨e, he, -⟩ | ⟨e, u₁, -, raised⟩
    · rw [he] at hsight
      cases hsight
    · subst hsight
      cases congrArg Prod.fst raised
  | @entered _ _ _ _ _ o _ _ _ entry run sealed =>
    match o with
    | .ok (.suspend y s) => exact ⟨s, rfl⟩
    | .ok (.complete y) =>
      subst hsight
      cases congrArg Prod.fst sealed
    | .error e =>
      subst hsight
      simp only [Life.seal] at sealed
      split at sealed
      · rcases bind_eq_of.mp sealed with ⟨e, he, -⟩ | ⟨e, u₁, -, raised⟩
        · cases he
        · cases congrArg Prod.fst raised
      · cases congrArg Prod.fst sealed

/-- The life of the source is as the last mark of a drive says, and after a suspension the source
waits. -/
structure Dormant (p : (U × Life S) × Log (U × Life S)) : Prop where
  lowest : ∀ m ∈ p.2, m.act.isAdvanced = true → m.place = 0
  latest : ∀ before m after, p.2 = before ++ m :: after → m.act.isAdvanced = true →
    (∀ m' ∈ after, m'.act.isAdvanced = false) → p.1.2 = m.world.2
  waits : ∀ m ∈ p.2, ∀ v x, m.act = .advanced v (.ok (.suspended x)) →
    ∃ s, m.world.2 = .suspended s

theorem dormant_start (u : U) (l : Life S) : Dormant ((u, l), ([] : Log (U × Life S))) :=
  ⟨fun _ h => by simp at h, fun _ _ _ h => by simp at h, fun _ h => by simp at h⟩

theorem Dormant.snoc {w : U × Life S} {log : Log (U × Life S)} (dormant : Dormant (w, log))
    {m : Mark (U × Life S)} (hm : m.act.isAdvanced = false) {w' : U × Life S} (hw : w'.2 = w.2) :
    Dormant (w', log ++ [m]) := by
  refine ⟨?_, ?_, ?_⟩
  · intro m' hm' advanced
    rcases List.mem_append.mp hm' with hm' | hm'
    · exact dormant.lowest m' hm' advanced
    · rw [List.mem_singleton.mp hm', hm] at advanced
      cases advanced
  · intro before m' after hlog advanced none
    rcases Log.split hlog with ⟨rest, rfl, rfl⟩ | ⟨rest, -, hrest⟩
    · refine hw.trans (dormant.latest before m' rest rfl advanced ?_)
      exact fun m'' hm'' => none m'' (List.mem_append_left _ hm'')
    · cases rest with
      | nil =>
        obtain ⟨rfl, -⟩ := List.cons.inj hrest
        rw [hm] at advanced
        cases advanced
      | cons m'' rest => simp at hrest
  · intro m' hm' v x hact
    rcases List.mem_append.mp hm' with hm' | hm'
    · exact dormant.waits m' hm' v x hact
    · rw [List.mem_singleton.mp hm'] at hact
      rw [hact] at hm
      cases hm

theorem stable_dormant {L : Language} {drive : Nat → Value → Exec (World L × Life S) Step}
    {call : Value → List Value → Exec (World L × Life S) Value}
    (drives : ∀ n v, (drive n v).Spares) (calls : ∀ f arguments, (call f arguments).Spares)
    (body : S → Value → Exec (World L) (Move S)) :
    Stable (World.hostBeside drive call) World.tokensIn (Source.ofBody World.mint body)
      Dormant := by
  -- Whatever else happens leaves the life of the source alone. Only its own drive sets a new rest.
  refine .of_served ?_ ?_ ?_ ?_ ?_
  · exact fun n w log dormant => ⟨dormant.lowest, dormant.latest, dormant.waits⟩
  · intro place w a w' log served dormant
    exact dormant.snoc served.inner.2 (served.spares drives calls)
  · intro v w log dormant
    refine ⟨?_, ?_, ?_⟩
    · intro m hm advanced
      rcases List.mem_append.mp hm with hm | hm
      · exact dormant.lowest m hm advanced
      · rw [List.mem_singleton.mp hm]
    · intro before m after hlog advanced none
      rcases Log.split hlog with ⟨rest, rfl, rfl⟩ | ⟨rest, -, hrest⟩
      · have := none _ (List.mem_append_right _ List.mem_cons_self)
        cases this
      · cases rest with
        | nil =>
          obtain ⟨rfl, -⟩ := List.cons.inj hrest
          rfl
        | cons m' rest => simp at hrest
    · intro m hm v' x hact
      rcases List.mem_append.mp hm with hm | hm
      · exact dormant.waits m hm v' x hact
      · obtain rfl := List.mem_singleton.mp hm
        exact Source.left_of_suspended (Act.advanced.inj hact).2
  · exact fun place v w log dormant => dormant.snoc rfl rfl
  · exact fun place sight w log dormant => dormant.snoc rfl rfl

/-- The source has yielded the action last. It waits in the state in which it did that. -/
def LeftAt (action : Value) (s : S) (p : Stacked (U × Life S)) : Prop :=
  p.1.1.1.2 = .suspended s ∧ ∃ before m after v, p.log = before ++ m :: after ∧
    m.act = .advanced v (.ok (.suspended action)) ∧ m.world.2 = .suspended s ∧
    ∀ m' ∈ after, m'.act.isAdvanced = false

theorem not_advanced_of_quiet {a : Act} (h : a.runsCode = false) : a.isAdvanced = false := by
  cases a with
  | advanced v r => cases h
  | _ => rfl

/-- Neither the handling of an action nor what comes after the end drives the source. -/
theorem Dormant.leftAt {p : Stacked (U × Life S)} (dormant : Dormant p.1.1)
    {past rest : Log (U × Life S)} (hlog : p.log = past ++ rest) {table : Table}
    {action f : Value} {token : Nat} {r : Result Value} {exchange : List Act}
    (handles : Handles table (past.actsAt 0) action f token r exchange)
    (quiet : ∀ m ∈ rest, m.act.runsCode = false) : ∃ s, LeftAt action s p := by
  -- The last drive of the source is the one in which it has yielded the action.
  obtain ⟨earlier, v, later, hacts, still⟩ := handles.still
  obtain ⟨before, m, after, rfl, -, hact, rfl⟩ := Log.exists_mark hacts
  have hlog : p.1.1.2 = before ++ m :: (after ++ rest) := by
    rw [show p.1.1.2 = p.log from rfl, hlog, List.append_assoc, List.cons_append]
  have idle : ∀ m' ∈ after ++ rest, m'.act.isAdvanced = false := by
    intro m' hm'
    rcases List.mem_append.mp hm' with hm' | hm'
    · cases advanced : m'.act.isAdvanced with
      | false => rfl
      | true =>
        have lowest := dormant.lowest m' (by rw [hlog]; simp [hm']) advanced
        exact advanced.symm.trans (still _ (Log.mem_actsAt.mpr ⟨m', hm', lowest, rfl⟩))
    · exact not_advanced_of_quiet (quiet m' hm')
  obtain ⟨s, waits⟩ := dormant.waits m (by rw [hlog]; simp) v action hact
  refine ⟨s, ?_, before, m, after ++ rest, v, hlog, hact, waits, idle⟩
  rw [← waits]
  exact dormant.latest before m _ hlog (by rw [hact]; rfl) idle

/-! ## A stack in a world -/

/-- The stack around a handled computation, with the services of a world. The life of the source
stands beside the world. -/
def World.stack {L : Language} {S : Type} (drive : Nat → Value → Exec (World L × Life S) Step)
    (call : Value → List Value → Exec (World L × Life S) Value) (table : Table)
    (body : S → Value → Exec (World L) (Move S)) (bound : Nat) :
    Nat → Source (Stacked (World L × Life S)) :=
  OneShot.stack (World.hostBeside drive call) World.tokensIn table (Source.ofBody World.mint body)
    bound

/-- Nothing but the loop around the source drives it. -/
structure Owned {W : Type} (drive : Nat → Value → Exec (W × Life S) Step)
    (call : Value → List Value → Exec (W × Life S) Value) (turns : List (Turn (W × Life S))) :
    Prop where
  drives : ∀ n v, (drive n v).Spares
  calls : ∀ f arguments, (call f arguments).Spares
  changes : ∀ t ∈ turns, ∀ w, (t.change w).2 = w.2

/-- Every later drive of the computations up to a place completes with nothing and does nothing: the
world is as the rest of the program changes it. -/
def Silent {W : Type} (levels : Nat → Source (Stacked W)) (place : Nat) (p : Stacked W) : Prop :=
  ∀ later : List (Turn W), (∀ t ∈ later, t.place ≤ place) →
    ∃ marks, takeTurns levels Stacked.change later p =
        (.ok (later.map fun _ => .ok (.completed .nil)),
          (((later.foldl (fun w t => t.change w) p.1.1.1, p.log ++ marks), p.1.2), p.2)) ∧
      marks.map Mark.deed = idleActs (later.map fun t => (t.place, t.value))

section

variable {L : Language} {S : Type} {drive : Nat → Value → Exec (World L × Life S) Step}
  {call : Value → List Value → Exec (World L × Life S) Value} {table : Table}
  {body : S → Value → Exec (World L) (Move S)} {start : S} {layers : List Layer} {bound : Nat}
  {turns : List (Turn (World L × Life S))} {w : World L} {r : Result (List Sight)}
  {p : Stacked (World L × Life S)}

section

variable (places : ∀ t ∈ turns, t.place = layers.length)
  (run : takeTurns (World.stack drive call table body bound) Stacked.change turns
    (.fresh (w, .fresh start) layers) = (r, p))

include places run

theorem World.session : Session table (Prompt tokensIn) layers.length p := by
  have stable : Stable (World.hostBeside drive call) tokensIn (Source.ofBody mint body)
      (Prompt tokensIn) := stable_prompt _ tokensIn_note
  exact session_of_run stable (World.lawful_hostBeside drive call) places
    (fun t _ w log paused h => h.change paused _) (prompt_start _) run

theorem World.dormant (owned : Owned drive call turns) : Dormant p.1.1 := by
  have stable := stable_dormant owned.drives owned.calls body
  refine (session_of_run stable (World.lawful_hostBeside drive call) places ?_
    (dormant_start w _) run).kept
  intro t ht w log paused h
  exact ⟨h.lowest, fun before m after hlog advanced none =>
    (owned.changes t ht w).trans (h.latest before m after hlog advanced none), h.waits⟩

end

theorem World.silent {place : Nat} (lowest : p.1.2 = .finished)
    (shells : ∀ k < place, p.2 k = .finished) :
    Silent (World.stack drive call table body bound) place p :=
  fun _ places => takeTurns_over places lowest shells

end

/-! ## A small stack -/

/-- The token that is read. -/
def Mark.token? {W : Type} (m : Mark W) : Option Nat :=
  match m.act with
  | .read token _ => some token
  | _ => none

theorem Log.split_at {W : Type} (log : Log W) (n : Nat) (h : n < log.length) :
    log = log.take n ++ log[n] :: log.drop (n + 1) := by
  rw [← List.drop_eq_getElem_cons h, List.take_append_drop]

namespace Small

def language : Language := ⟨Unit, Unit, Unit⟩

def action : Value := .action 0 (.str "e") (.str "o") 0 []

/-- Yields the action and completes with the answer. -/
def body (answered : Bool) (v : Value) : Exec (World language) (Move Bool) :=
  return if answered then .complete v else .suspend action true

def table : Table := World.singleTable "e" "o" (.function 0)

def layers : List Layer := [.traced .nil .nil, .shadow 1 [], .recovering 2 .nil, .handle []]

def turns {W : Type} : List (Turn W) := [⟨4, id, .nil⟩, ⟨4, id, .int 3⟩]

/-- The first computation completes at once. The other ones yield the action again and again. -/
def drive {W : Type} (n : Nat) (_ : Value) : Exec W Step :=
  return if n = 0 then .completed .nil else .suspended action

/-- The entry calls these methods of its token, and returns a computation. -/
def call (methods : List Method) (n : Nat) (_ : Value) :
    List Value → Exec (World language) Value
  | [.tactics id] => do
    for m in methods do
      let _ ← World.callMethod (.tactics id) m [.int 7]
    return .computation n
  | _ => return .nil

/-- A session with the stack. The entry returns the first computation. -/
def session (drive : Nat → Value → Exec (World language × Life Bool) Step) (methods : List Method) :
    Result (List Sight) × Stacked (World language × Life Bool) :=
  takeTurns (World.stack drive (fun f arguments => (call methods 0 f arguments).beside) table body
    9) Stacked.change turns (.fresh ({ memory := () }, .fresh false) layers)

end Small

end OneShot
