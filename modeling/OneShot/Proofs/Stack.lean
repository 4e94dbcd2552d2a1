import Mathlib.Logic.Function.Basic
import OneShot.Kernel
import OneShot.Proofs.Passing

/-!
# Computations around one another

A handled computation can be handled again, traced, given another environment or guarded against
failures, to any depth. Each of these stands around the one before. The lives of all stand beside
the world.
-/

namespace OneShot

/-- The body of a computation that stands around another one. -/
inductive Shell where
  | handling (table : Table) (phase : Dispatch.Phase)
  | tracing (label limit : Value) (phase : Tracing.Phase)

/-- What a computation can be wrapped in. -/
inductive Layer where
  | handle (table : Table)
  | traced (label limit : Value)
  /-- The overrides stand in front of the environment around them. -/
  | shadow (id : Nat) (overrides : Assoc Value)
  /-- Ends with what `recover` makes of a failure. -/
  | recovering (id : Nat) (recover : Value)

open World (singleTable) in
def Layer.shell : Layer → Shell
  | .handle table => .handling table .start
  | .traced label limit => .tracing label limit .start
  | .shadow id overrides =>
    .handling (singleTable "reader" "ask" (.native id (.localAsk overrides))) .start
  | .recovering id recover =>
    .handling (singleTable "failure" "throw" (.native id (.throwAbort recover))) .start

/-- The lives of fresh layers, the innermost first. -/
def Layer.lives (layers : List Layer) (k : Nat) : Life Shell :=
  match layers[k]? with
  | some layer => .fresh layer.shell
  | none => .finished

variable {V : Type}

def Shell.advance (host : Host V) (source : Source V) (bound : Nat) : Shell → Value →
    Exec V (Move Shell)
  | .handling table phase, v => do
    return (← Dispatch.advance host table source bound phase v).map (.handling table)
  | .tracing label limit phase, v => do
    return (← Tracing.advance host label limit source phase v).map (.tracing label limit)

/-- The body of a computation in a world that stands around another one there. -/
def Shell.body {L : Language} (source : Nat) : Shell → Body L
  | .handling table phase => .handling source table phase
  | .tracing label limit phase => .tracing source label limit phase

theorem Move.map_map {S T X : Type} (f : S → T) (g : T → X) (move : Move S) :
    (move.map f).map g = move.map fun s => g (f s) := by
  cases move <;> rfl

/-- The world moves the body of a layer as its shell goes on, so what is said of shells goes for the
computations of a world. -/
theorem Shell.moveBody_body {L : Language} (program : Program L) (host : Host (World L))
    (bound source : Nat) (shell : Shell) (v : Value) :
    World.moveBody program host bound (shell.body source) v = (do
      return (← shell.advance host (host.drive source) bound v).map (Shell.body source)) := by
  cases shell with
  | handling table phase =>
    simp only [Shell.advance, bind_assoc, pure_bind, Move.map_map]
    rfl
  | tracing label limit phase =>
    simp only [Shell.advance, bind_assoc, pure_bind, Move.map_map]
    rfl

/-- The computation at a place of the stack. The lowest one is at the place 0. What is seen of a
drive may differ from place to place. -/
def level (see : Nat → Source V → Source V) (services : Nat → Host V)
    (cells : Nat → Cell V (Life Shell)) (lowest : Source V) (bound : Nat) : Nat → Source V
  | 0 => see 0 lowest
  | k + 1 => see (k + 1) (Life.drive (services (k + 1)).mint (cells k)
      (Shell.advance (services (k + 1)) (level see services cells lowest bound k) bound))

/-- Each layer has its life in one place of a function. -/
def Cell.nth {X : Type} (k : Nat) : Cell (V × (Nat → Life X)) (Life X) where
  get p := p.2 k
  set l p := (p.1, Function.update p.2 k l)

/-- The driver drives the computation at a place with a value. Before that, the rest of the program
changes the world. -/
structure Turn (W : Type) where
  place : Nat
  change : W → W
  value : Value

/-- One turn after the other. `apply` makes a change of the world. -/
def takeTurns {W : Type} (levels : Nat → Source V) (apply : (W → W) → V → V) :
    List (Turn W) → Exec V (List Sight)
  | [] => pure []
  | t :: turns => do
    Exec.modify (apply t.change)
    let sight ← (levels t.place t.value).look
    return sight :: (← takeTurns levels apply turns)

section

variable {U : Type} {levels : Nat → Source U} {apply : (V → V) → U → U} {t : Turn V}
  {turns : List (Turn V)} {p p₁ p' : U}

theorem takeTurns_cons {sight : Sight} {r : Result (List Sight)}
    (drive : levels t.place t.value (apply t.change p) = (.of sight, p₁))
    (rest : takeTurns levels apply turns p₁ = (r, p')) :
    takeTurns levels apply (t :: turns) p = (r.map (sight :: ·), p') := by
  rw [takeTurns, Exec.bind_ok (rfl : Exec.modify (apply t.change) p = _),
    Exec.bind_ok (Exec.look_eq.mpr ⟨sight, rfl, drive⟩)]
  simp only [Bind.bind, Exec.bind, rest]
  cases r <;> rfl

theorem takeTurns_exhausted (drive : levels t.place t.value (apply t.change p) = (.exhausted, p₁)) :
    takeTurns levels apply (t :: turns) p = (.exhausted, p₁) := by
  rw [takeTurns, Exec.bind_ok (rfl : Exec.modify (apply t.change) p = _)]
  simp only [Exec.look, Exec.rescue, Bind.bind, Exec.bind, drive]

end

/-! ## Stacks that are alike -/

section

open Exec

variable {U : Type} {R : V → U → Prop}

theorem Cell.alike_nth {X : Type} (k : Nat) :
    Cell.Alike (Alongside R) (nth (X := X) k) (nth k) where
  get _ _ h := congrFun h.2 k
  set x _ _ h := ⟨h.1, congrArg (fun lives : Nat → Life X => Function.update lives k x) h.2⟩

theorem Shell.alike_advance {host : Host V} {host' : Host U} {source : Source V}
    {source' : Source U} (alike : host.Alike R host')
    (alike' : ∀ v, Exec.Alike R (source v) (source' v)) (bound : Nat) (shell : Shell) (v : Value) :
    Exec.Alike R (shell.advance host source bound v) (shell.advance host' source' bound v) := by
  cases shell with
  | handling table phase =>
    exact (Dispatch.alike_advance alike alike' table bound phase v).bind fun _ => alike_pure _
  | tracing label limit phase =>
    exact (Tracing.alike_advance alike alike' label limit phase v).bind fun _ => alike_pure _

theorem alike_level {see : Nat → Source V → Source V} {see' : Nat → Source U → Source U}
    {services : Nat → Host V} {services' : Nat → Host U} {cells : Nat → Cell V (Life Shell)}
    {cells' : Nat → Cell U (Life Shell)} {lowest : Source V} {lowest' : Source U}
    (sees : ∀ place {source : Source V} {source' : Source U},
      (∀ v, Exec.Alike R (source v) (source' v)) →
      ∀ v, Exec.Alike R (see place source v) (see' place source' v))
    (serves : ∀ place, (services place).Alike R (services' place))
    (keeps : ∀ place, Cell.Alike R (cells place) (cells' place))
    (starts : ∀ v, Exec.Alike R (lowest v) (lowest' v)) (bound place : Nat) (v : Value) :
    Exec.Alike R (level see services cells lowest bound place v)
      (level see' services' cells' lowest' bound place v) := by
  induction place generalizing v with
  | zero => exact sees 0 starts v
  | succ place ih =>
    have drives := Life.alike_drive (serves (place + 1)).mint
      (Shell.alike_advance (serves (place + 1)) ih bound) (keeps place)
    exact sees (place + 1) drives v

theorem alike_takeTurns {W : Type} {levels : Nat → Source V} {levels' : Nat → Source U}
    {apply : (W → W) → V → V} {apply' : (W → W) → U → U}
    (drives : ∀ place v, Exec.Alike R (levels place v) (levels' place v))
    (applies : ∀ f p q, R p q → R (apply f p) (apply' f q)) (turns : List (Turn W)) :
    Exec.Alike R (takeTurns levels apply turns) (takeTurns levels' apply' turns) := by
  induction turns with
  | nil => exact alike_pure []
  | cons t turns ih =>
    refine (alike_modify (applies t.change)).bind fun _ => ?_
    refine (drives t.place t.value).look.bind fun sight => ?_
    exact ih.bind fun seen => alike_pure _

end

/-! ## Stacks without a bound -/

section

open Exec

variable {host : Host V} {source : Nat → Source V} (steady : ∀ v, Growing (source · v))

include steady

theorem Shell.growing_advance (shell : Shell) (v : Value) :
    Growing fun b => shell.advance host (source b) b v := by
  cases shell with
  | handling table phase =>
    exact (Dispatch.growing_advance (Host.growing_const host) steady phase v).bind
      fun _ => growing_const _
  | tracing label limit phase =>
    refine Growing.bind ?_ fun _ => growing_const _
    cases phase with
    | start => exact (steady .nil).bind fun _ => growing_const _
    | waiting steps =>
      exact (growing_const _).bind fun _ => (steady v).bind fun _ => growing_const _

theorem Shell.ends_handling {table : Table} {phase : Dispatch.Phase} {v : Value} {p p' : V}
    {o : Except Error (Move Shell)} :
    Ends (fun b => (handling table phase).advance host (source b) b v) p o p' ↔
      ∃ d p₁ o₁, Dispatch.takeUp host phase v p = (.of d, p₁) ∧
        Dispatch.Runs (fun _ => host) table source d p₁ o₁ p' ∧
        o = o₁.map (Move.map (.handling table)) := by
  have takes := Dispatch.growing_takeUp (Host.growing_const host) phase v
  have advances (o₁ : Except Error (Move Dispatch.Phase)) :=
    @Dispatch.ends_proceed V (fun _ => host) table source (Host.growing_const host) steady _ takes p
      p' o₁
  simp only [Shell.advance, ends_map, Dispatch.advance, advances, ends_const]
  constructor
  · rintro ⟨o₁, rfl, d, p₁, taken, runs⟩
    exact ⟨d, p₁, o₁, taken, runs, rfl⟩
  · rintro ⟨d, p₁, o₁, taken, runs, rfl⟩
    exact ⟨o₁, rfl, d, p₁, taken, runs⟩

omit steady

theorem growing_level {services : Nat → Host V} {cells : Nat → Cell V (Life Shell)}
    {lowest : Source V} (place : Nat) (v : Value) :
    Growing fun b => level (fun _ source => source) services cells lowest b place v := by
  induction place generalizing v with
  | zero => exact growing_const _
  | succ place ih => exact Life.growing_drive (Shell.growing_advance ih) v

variable {W : Type} {levels : Nat → Nat → Source V} {apply : (W → W) → V → V}
  (growing : ∀ place v, Growing fun b => levels b place v)

include growing

theorem growing_takeTurns (turns : List (Turn W)) :
    Growing fun b => takeTurns (levels b) apply turns := by
  induction turns with
  | nil => exact growing_const _
  | cons t turns ih =>
    refine (growing_const _).bind fun _ => (growing t.place t.value).look.bind fun sight => ?_
    exact ih.bind fun seen => growing_const _

theorem ends_takeTurns {t : Turn W} {turns : List (Turn W)} {p p' : V} {seen : List Sight} :
    Ends (fun b => takeTurns (levels b) apply (t :: turns)) p (.ok seen) p' ↔
      ∃ sight p₁ rest, Ends (fun b => levels b t.place t.value) (apply t.change p) sight p₁ ∧
        Ends (fun b => takeTurns (levels b) apply turns) p₁ (.ok rest) p' ∧
        seen = sight :: rest := by
  have rests (sight : Sight) : Growing fun b => do
      return sight :: (← takeTurns (levels b) apply turns) :=
    (growing_takeTurns growing turns).bind fun _ => growing_const _
  have changed : Ends (fun b => takeTurns (levels b) apply (t :: turns)) p (.ok seen) p' ↔
      Ends (fun b => do
        let sight ← (levels b t.place t.value).look
        return sight :: (← takeTurns (levels b) apply turns)) (apply t.change p) (.ok seen) p' :=
    Iff.rfl
  rw [changed, ends_bind (growing t.place t.value).look rests]
  constructor
  · rintro (⟨e, ⟨⟩, _⟩ | ⟨sight, p₁, drive, h⟩)
    obtain ⟨_, ⟨⟩, drive⟩ := ends_look.mp drive
    obtain ⟨e | rest, ⟨⟩, seen⟩ := (ends_map (sight :: ·)).mp h
    exact ⟨sight, p₁, rest, drive, seen, rfl⟩
  · rintro ⟨sight, p₁, rest, drive, h, rfl⟩
    exact Or.inr ⟨sight, p₁, ends_look.mpr ⟨sight, rfl, drive⟩,
      (ends_map (sight :: ·)).mpr ⟨.ok rest, rfl, h⟩⟩

end

/-! ## Ends on their way through a shell -/

section

open Exec

variable {α β : Type} {live stopped : V → Prop}

theorem passes_map {shut : Except Error α → V → Prop} {shut' : Except Error β → V → Prop}
    (stops : ∀ p, live p → stopped p) {x : Exec V α} (f : α → β) (hx : Passes live stopped shut x)
    (h : ∀ o p, shut o p → shut' (o.map f) p) :
    Passes live stopped shut' (do return f (← x)) := by
  refine hx.bind (fun a => (keeps_pure _).passes stops) ?_ ?_
  · intro a q ended
    exact ⟨.ok (f a), q, rfl, h (.ok a) q ended⟩
  · intro e q ended
    exact h (.error e) q ended

variable {shut shut' : Sight → V → Prop} {host : Host V} {source : Source V}

theorem Shell.passes_advance (final : ∀ x q, ¬ shut (.ok (.suspended x)) q)
    (stops : ∀ p, live p → stopped p) (keeps : host.Keeps live)
    (passes : ∀ v, Passes live stopped shut (source v))
    (noted : ∀ sight n q, shut sight q → ∃ q', host.note n q = (.ok (), q') ∧ shut sight q')
    (bound : Nat) (shell : Shell) (v : Value) :
    Passes live stopped (Moved shut) (shell.advance host source bound v) := by
  have mapped {S T : Type} (f : S → T) (o : Except Error (Move S)) (p : V)
      (h : Moved shut o p) : Moved shut (o.map (Move.map f)) p := by
    match o, h with
    | .error e, h => exact h
    | .ok (.suspend x s), h => exact h
    | .ok (.complete r), h => exact h
  cases shell with
  | handling table phase =>
    exact passes_map stops _ (Dispatch.passes_advance final stops keeps passes bound phase v)
      (mapped _)
  | tracing label limit phase =>
    exact passes_map stops _ (Tracing.passes_advance final stops keeps passes noted label limit
      phase v) (mapped _)

end

end OneShot
