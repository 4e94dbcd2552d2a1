import Mathlib.Logic.Function.Basic
import OneShot.Handling
import OneShot.Proofs.Transparent

/-!
# Programs with tracers

A whole program makes computations, drives them, calls its functions and changes its memory. Any of
its computations can be replaced by a traced one, and nobody in the program can tell.
-/

namespace OneShot

open Exec

/-- The body of a computation that a program makes. -/
inductive Part (S : Type) where
  /-- A computation of the program's own, in one of its states. -/
  | task (state : S)
  | handling (source : Nat) (table : Table) (phase : Dispatch.Phase)
  | tracing (source : Nat) (label limit : Value) (phase : Tracing.Phase)

/-- What the code of a program does over a memory `M`. What it catches, it can raise again. -/
inductive Code (M S α : Type) where
  | give (a : α)
  | fail (e : Error)
  | diverge
  /-- Changes the memory, and goes on with what it was before. -/
  | act (change : M → M) (next : M → Code M S α)
  | make (part : Part S) (next : Nat → Code M S α)
  | drive (computation : Nat) (v : Value) (next : Sight → Code M S α)
  | call (f : Value) (arguments : List Value) (next : Except Error Value → Code M S α)

structure Plan (M S : Type) where
  /-- One move of a computation of the program's own. -/
  advance : S → Value → Code M S (Move S)
  /-- What a function does, also one that is the entry of a table. -/
  call : Value → List Value → Code M S Value

/-- The computations that have been made. -/
structure Heap (S : Type) where
  next : Nat
  life : Nat → Life (Part S)

namespace Heap

variable {S : Type}

def empty : Heap S := ⟨0, fun _ => .finished⟩

def add (part : Part S) (heap : Heap S) : Heap S :=
  ⟨heap.next + 1, Function.update heap.life heap.next (.fresh part)⟩

def cell (n : Nat) : Cell (Heap S) (Life (Part S)) where
  get heap := heap.life n
  set l heap := { heap with life := Function.update heap.life n l }

end Heap

/-- Where a program runs. -/
structure Setting (V M S : Type) where
  host : Host V
  memory : Cell V M
  heap : Cell V (Heap S)
  /-- What else is made along with a computation. -/
  made : Nat → V → V
  /-- What the drives of a computation go through. -/
  around : Nat → Source V → Source V

namespace Setting

variable {V M S : Type} (setting : Setting V M S)

def life (n : Nat) : Cell V (Life (Part S)) where
  get w := (setting.heap.get w).life n
  set l w := setting.heap.set ((Heap.cell n).set l (setting.heap.get w)) w

def make (part : Part S) : Exec V Nat := do
  let n ← Exec.read fun w => (setting.heap.get w).next
  Exec.modify fun w => setting.made n (setting.heap.set ((setting.heap.get w).add part) w)
  return n

/-- Runs code with the services that it can call on. -/
def run {α : Type} (below : Host V) : Code M S α → Exec V α
  | .give a => pure a
  | .fail e => Exec.raise e
  | .diverge => Exec.exhausted
  | .act change next => do
    let before ← Exec.read setting.memory.get
    Exec.modify fun w => setting.memory.set (change (setting.memory.get w)) w
    run below (next before)
  | .make part next => do run below (next (← setting.make part))
  | .drive n v next => do run below (next (← (below.drive n v).look))
  | .call f arguments next => do
    let called : Exec V (Except Error Value) := do return .ok (← below.call f arguments)
    run below (next (← called.rescue fun e => pure (.error e)))

/-- One move of a part of a program. -/
def move (plan : Plan M S) (below : Host V) (bound : Nat) : Part S → Value → Exec V (Move (Part S))
  | .task state, v => do return (← setting.run below (plan.advance state v)).map .task
  | .handling source table phase, v => do
    return (← Dispatch.advance below table (below.drive source) bound phase v).map
      (.handling source table)
  | .tracing source label limit phase, v => do
    return (← Tracing.advance below label limit (below.drive source) phase v).map
      (.tracing source label limit)

/-- The services for drives and calls that nest up to the given depth. -/
def kernel (plan : Plan M S) (bound : Nat) : (depth : Nat) → Host V
  | 0 => { setting.host with
      drive := fun _ _ => Exec.exhausted
      call := fun _ _ => Exec.exhausted }
  | depth + 1 => { setting.host with
      drive := fun n => setting.around n
        (Life.drive setting.host.mint (setting.life n)
          (setting.move plan (kernel plan bound depth) bound))
      call := fun f arguments => setting.run (kernel plan bound depth) (plan.call f arguments) }

/-- The program as it is. -/
def plain (host : Host M) : Setting (M × Heap S) M S where
  host := host.beside
  memory := ⟨Prod.fst, fun m w => (m, w.2)⟩
  heap := ⟨Prod.snd, fun heap w => (w.1, heap)⟩
  made _ w := w
  around _ c := c

def tracer (n : Nat) : Cell (Nat → Life Tracing.Phase) (Life Tracing.Phase) where
  get lives := lives n
  set l lives := Function.update lives n l

/-- The program with tracers. A computation that has a label is replaced by its tracer, so every
drive of it goes through that one. -/
def traced (host : Host M) (labels : Nat → Option Value) :
    Setting ((M × Heap S) × (Nat → Life Tracing.Phase)) M S where
  host := host.beside.beside
  memory := (plain host).memory.ofFirst
  heap := (plain (S := S) host).heap.ofFirst
  made n w := (w.1, Function.update w.2 n (.fresh .start))
  around n c :=
    match labels n with
    | some label => Life.drive host.beside.beside.mint (tracer n).ofSecond
        (Tracing.advance host.beside.beside.quiet label .nil c)
    | none => c

/-! ## Alike settings -/

section

variable {V U : Type} {R : V → U → Prop}

/-- Two settings in which programs run alike. -/
structure Alike (R : V → U → Prop) (setting : Setting V M S) (setting' : Setting U M S) : Prop where
  host : setting.host.Alike R setting'.host
  memory : Cell.Alike R setting.memory setting'.memory
  made : ∀ part, Exec.Alike R (setting.make part) (setting'.make part)
  drive : ∀ n body body', (∀ s v, Exec.Alike R (body s v) (body' s v)) → ∀ v,
    Exec.Alike R (setting.around n (Life.drive setting.host.mint (setting.life n) body) v)
      (setting'.around n (Life.drive setting'.host.mint (setting'.life n) body') v)

variable {setting : Setting V M S} {setting' : Setting U M S} (alike : Alike R setting setting')

include alike

theorem alike_run {below : Host V} {below' : Host U} (lower : below.Alike R below') {α : Type}
    (code : Code M S α) : Exec.Alike R (setting.run below code) (setting'.run below' code) := by
  induction code with
  | give a => exact alike_pure a
  | fail e => exact alike_raise e
  | diverge => exact alike_exhausted
  | act change next ih =>
    refine (alike_read alike.memory.get).bind fun before => ?_
    refine (alike_modify ?_).bind fun _ => ih before
    intro p q h
    rw [alike.memory.get p q h]
    exact alike.memory.set _ p q h
  | make part next ih => exact (alike.made part).bind ih
  | drive n v next ih => exact (lower.drive n v).look.bind ih
  | call f arguments next ih =>
    refine Alike.bind ?_ ih
    exact ((lower.call f arguments).bind fun _ => alike_pure _).rescue fun _ => alike_pure _

theorem alike_move {below : Host V} {below' : Host U} (lower : below.Alike R below')
    (plan : Plan M S) (bound : Nat) (part : Part S) (v : Value) :
    Exec.Alike R (setting.move plan below bound part v)
      (setting'.move plan below' bound part v) := by
  cases part with
  | task state =>
    exact (alike_run alike lower (plan.advance state v)).bind fun _ => alike_pure _
  | handling source table phase =>
    exact (Dispatch.alike_advance lower (lower.drive source) table bound phase v).bind
      fun _ => alike_pure _
  | tracing source label limit phase =>
    exact (Tracing.alike_advance lower (lower.drive source) label limit phase v).bind
      fun _ => alike_pure _

theorem alike_kernel (plan : Plan M S) (bound depth : Nat) :
    (setting.kernel plan bound depth).Alike R (setting'.kernel plan bound depth) := by
  induction depth with
  | zero => exact { alike.host with
      drive := fun _ _ => alike_exhausted
      call := fun _ _ => alike_exhausted }
  | succ depth ih => exact { alike.host with
      drive := fun n v => alike.drive n _ _ (alike_move alike ih plan bound) v
      call := fun f arguments => alike_run alike ih (plan.call f arguments) }

end

/-! ## Tracers change nothing -/

section

variable {host : Host M} {labels : Nat → Option Value}

/-- Each computation with a label goes in lockstep with its tracer. -/
def InStep (labels : Nat → Option Value) (heap : Heap S) (lives : Nat → Life Tracing.Phase) :
    Prop :=
  ∀ n label, labels n = some label → Tracing.Lockstep (heap.life n) (lives n)

theorem InStep.add {heap : Heap S} {lives : Nat → Life Tracing.Phase} (h : InStep labels heap lives)
    (part : Part S) :
    InStep labels (heap.add part) (Function.update lives heap.next (.fresh .start)) := by
  intro n label labelled
  by_cases hn : n = heap.next
  · subst hn
    simpa [Heap.add] using Tracing.Lockstep.fresh
  · simpa [Heap.add, Function.update_of_ne hn] using h n label labelled

theorem InStep.set {heap : Heap S} {lives : Nat → Life Tracing.Phase} (h : InStep labels heap lives)
    {n : Nat} {l : Life (Part S)} {m : Life Tracing.Phase} (step : Tracing.Lockstep l m) :
    InStep labels ((Heap.cell n).set l heap) ((tracer n).set m lives) := by
  intro k label labelled
  by_cases hk : k = n
  · subst hk
    simpa [Heap.cell, tracer] using step
  · simpa [Heap.cell, tracer, Function.update_of_ne hk] using h k label labelled

theorem InStep.set_unlabelled {heap : Heap S} {lives : Nat → Life Tracing.Phase}
    (h : InStep labels heap lives) {n : Nat} (none : labels n = none) (l : Life (Part S)) :
    InStep labels ((Heap.cell n).set l heap) lives := by
  intro k label labelled
  have hk : k ≠ n := by
    rintro rfl
    rw [none] at labelled
    cases labelled
  simpa [Heap.cell, Function.update_of_ne hk] using h k label labelled

variable (labels) in
theorem alike_traced (mints : host.Mints) :
    Alike (Tracing.Traced fun p : M × Heap S => InStep labels p.2) (plain host)
      (traced host labels) where
  host := Tracing.alike_services _ host
  memory := by
    constructor
    · rintro p ⟨_, t⟩ ⟨rfl, fit⟩
      rfl
    · rintro m p ⟨_, t⟩ ⟨rfl, fit⟩
      exact ⟨rfl, fit⟩
  made part := by
    rintro ⟨m, heap⟩ ⟨_, lives⟩ ⟨rfl, fit⟩
    exact ⟨rfl, rfl, fit.add part⟩
  drive n body body' bodies v := by
    have services := Tracing.alike_services (InStep (S := S) labels) host
    -- Without a label nothing stands between, so only the lives of the tracers are beside.
    cases labelled : labels n with
    | some label =>
      have together : Tracing.Together (fun p : M × Heap S => InStep labels p.2)
          ((plain host).life n) (tracer n) :=
        ⟨fun _ _ fit => fit n label labelled, fun _ _ _ _ fit step => fit.set step⟩
      simp only [plain, traced, labelled]
      exact Tracing.alike_tracer label together mints.beside services.mint (fun _ => rfl) bodies v
    | none =>
      simp only [plain, traced, labelled]
      refine Life.alike_drive services.mint bodies ⟨?_, ?_⟩ v
      · rintro p ⟨_, t⟩ ⟨rfl, fit⟩
        rfl
      · rintro l p ⟨_, t⟩ ⟨rfl, fit⟩
        exact ⟨rfl, fit.set_unlabelled labelled l⟩

end

end Setting

/-! ## Transparency -/

/-- Whatever a driver sends, it sees the same of two computations within every bound, and leaves
the same. -/
def Source.Same {V U X : Type} (c : Nat → Source V) (view : V → X) (start : V) (c' : Nat → Source U)
    (view' : U → X) (start' : U) : Prop :=
  ∀ bound driver, (session (c bound) driver start).1 = (session (c' bound) driver start').1 ∧
    view (session (c bound) driver start).2 = view' (session (c' bound) driver start').2

/-- The computation in a world that keeps the calls of entries. -/
def subject {W S : Type} (host : Host W) (body : S → Value → Exec W (Move S)) :
    Source ((W × List Host.Call) × Life S) :=
  Source.ofBody host.recorded.mint fun s v => (body s v).beside

open Dispatch (handling) in
open Tracing (tracing) in
/-- A tracer without a limit is transparent. A traced computation yields the same and ends in the
same way, and its body does the same with what it is driven with, whatever that is. It makes no
difference whether a computation is traced within a handled one, around it or not at all: a driver
sees the same, and the entries are called with the same arguments. In a whole program any of the
computations can be traced. -/
theorem tracing_transparent {W S : Type} {host : Host W} (mints : host.Mints)
    (body : S → Value → Exec W (Move S)) (s : S) (w : W) (label : Value) (table : Table) :
    Source.Same (fun _ => Source.ofBody host.mint body) id (w, .fresh s)
      (fun _ => tracing host.beside label .nil (Source.ofBody host.mint body)) Prod.fst
      ((w, .fresh s), .fresh .start) ∧
    Source.Same (handling host.recorded.beside table (subject host body)) id
      (((w, []), .fresh s), .fresh .start)
      (handling host.recorded.beside.beside table
        (tracing host.recorded.beside label .nil (subject host body)))
      (fun p => (p.1.1, p.2)) ((((w, []), .fresh s), .fresh .start), .fresh .start) ∧
    Source.Same (handling host.recorded.beside table (subject host body)) id
      (((w, []), .fresh s), .fresh .start)
      (fun bound => tracing host.recorded.beside.beside label .nil
        (handling host.recorded.beside table (subject host body) bound))
      Prod.fst ((((w, []), .fresh s), .fresh .start), .fresh .start) ∧
    ∀ (P α : Type) (plan : Plan W P) (code : Code W P α) (labels : Nat → Option Value)
      (bound depth : Nat),
      let plain := Setting.plain (S := P) host
      let traced := Setting.traced (S := P) host labels
      let ended := plain.run (plain.kernel plan bound depth) code (w, Heap.empty)
      let ended' := traced.run (traced.kernel plan bound depth) code
        ((w, Heap.empty), fun _ => .finished)
      ended.1 = ended'.1 ∧ ended.2 = ended'.2.1 := by
  refine ⟨?_, ?_, ?_, ?_⟩
  · intro bound driver
    obtain ⟨seen, left, -⟩ := Exec.Alike.session (Tracing.alike_tracing mints label) driver
      (w, .fresh s) (_, .fresh .start) ⟨rfl, .fresh⟩
    exact ⟨seen, left.symm⟩
  · intro bound driver
    obtain ⟨seen, ⟨left, -⟩, loop⟩ := Exec.Alike.session
      (Tracing.alike_handling_tracing mints.recorded label table bound) driver
      (((w, []), .fresh s), .fresh .start) ((_, .fresh .start), _) ⟨⟨rfl, .fresh⟩, rfl⟩
    exact ⟨seen, Prod.ext left.symm loop⟩
  · intro bound driver
    -- The loop is the body that is traced, and the record of the calls belongs to the world.
    have alike := @Tracing.alike_tracing _ _ host.recorded.beside mints.recorded.beside
      (Dispatch.advance host.recorded.beside table (subject host body) bound) label
    obtain ⟨seen, left, -⟩ := Exec.Alike.session alike driver
      (((w, []), .fresh s), .fresh .start) (_, .fresh .start) ⟨rfl, .fresh⟩
    exact ⟨seen, left.symm⟩
  · intro P α plan code labels bound depth plain traced ended ended'
    have alike := Setting.alike_traced (S := P) labels mints
    obtain ⟨result, left, -⟩ := Setting.alike_run alike
      (Setting.alike_kernel alike plan bound depth) code (w, Heap.empty)
      (_, fun _ => .finished) ⟨rfl, fun _ _ _ => .finished⟩
    exact ⟨result, left.symm⟩

/-- A body that yields an action and completes with its answer. -/
def asks {W : Type} (effect operation : String) : Bool → Value → Exec W (Move Bool)
  | false, _ => pure (.suspend (.action 0 (.str effect) (.str operation) 0 []) true)
  | true, v => pure (.complete v)

open Dispatch (handling) in
open Tracing (tracing) in
/-- The computation of a handler yields a 7 past the tracer, and the answer comes back through
it. -/
theorem tracing_transparent_small :
    let host := Host.small (.int 7)
    let drive := handling host.recorded.beside.beside (World.singleTable "a" "get" (.function 0))
      (tracing host.recorded.beside (.str "t") .nil (subject host (asks "a" "get"))) 5
    let ended := session drive [.nil, .int 0]
      ((((none, []), .fresh false), .fresh .start), .fresh .start)
    ended.1 = .ok [.ok (.suspended (.int 7)), .ok (.completed (.int 1))] ∧
      (ended.2.1.1, ended.2.2) =
        (((some (.resume (.int 1)), [⟨.function 0, [.tactics 0]⟩]), .finished), .finished) := by
  have same := (tracing_transparent (Host.mints_small (.int 7)) (asks "a" "get") false none
    (.str "t") (World.singleTable "a" "get" (.function 0))).2.1 5 [.nil, .int 0]
  exact ⟨same.1.symm, same.2.symm⟩

end OneShot
