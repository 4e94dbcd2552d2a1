import Mathlib.Data.List.Chain
import OneShot.Proofs.Mappings
import OneShot.Proofs.Stack
import OneShot.Proofs.StoreCalls
import OneShot.Proofs.Transparent

/-!
# A store that computations share

Several computations are handled with the table of one live mapping, and a driver drives them in
any order. What happens is kept in a history, with the world at each moment. After each moment the
live mapping is what the operations that have been answered so far make of the first one.
-/

namespace OneShot.World.State

open Exec
open Dispatch (Phase Decision react proceed)

variable {L : Language}

/-! ## Histories -/

inductive Deed where
  /-- The driver sends a value to a handled computation. -/
  | sent (v : Value)
  /-- The driver sees how its drive ends. -/
  | gave (sight : Sight)
  /-- The source is driven. -/
  | begun (v : Value)
  | ended (r : Result Step)

/-- What happens at one of the handled computations, and the world then. -/
structure Moment (L : Language) where
  place : Nat
  deed : Deed
  world : World L

abbrev History (L : Language) := List (Moment L)

/-- An error that comes out of a loop is the one that came up there. Only the end of an iteration
does not come out. -/
def Passed (e e' : Error) : Prop := e.kind ≠ .stopIteration → e' = e

/-- What comes next after a computation has yielded an operation on the store. -/
inductive Served.Next (call : Value → List Value → Exec (World L) Value) (D : Nat → Prop)
    (live : Nat) (x : Value) (o : Operation) (parameters : List Value) (m m' : Moment L) :
    Prop where
  /-- The computation goes on with the answer. Nothing has happened besides. -/
  | answered {answer w}
      (served : Served call D live (m.world.addToken x).2 o parameters (.ok answer) w)
      (deed : m'.deed = .begun answer)
      (world : m'.world = resumed x m.world.tokens.next answer w)
  | failed {e e' w} (served : Served call D live (m.world.addToken x).2 o parameters (.error e) w)
      (deed : m'.deed = .gave (.error e')) (passed : Passed e e') (world : m'.world.dicts = w.dicts)

/-- What comes next when a computation has yielded something else. It is forwarded, unless one of
its names cannot be looked up. -/
inductive Forwarded (x : Value) (m m' : Moment L) : Prop where
  | forwarded (deed : m'.deed = .gave (.ok (.suspended x)))
  | refused {e name} (unnamed : Unnamed x name) (deed : m'.deed = .gave (.error e))
      (cause : e.cause = .refused name.keyRefusal)

/-- One moment follows another one. Nobody but the handlers writes the mappings of `D`. -/
def Moment.Leads (call : Value → List Value → Exec (World L) Value) (D : Nat → Prop) (live : Nat)
    (m m' : Moment L) : Prop :=
  match m.deed with
  | .gave _ => (∃ v, m'.deed = .sent v) ∧ Same D m.world m'.world
  | .sent _ => m'.place = m.place ∧ m'.world = m.world ∧
      ((∃ v, m'.deed = .begun v) ∨ m'.deed = .gave (.ok (.completed .nil)))
  | .begun _ => m'.place = m.place ∧ (∃ r, m'.deed = .ended r) ∧ Same D m.world m'.world
  | .ended (.ok (.suspended x)) => m'.place = m.place ∧
      match asked x with
      | some (o, parameters) => Served.Next call D live x o parameters m m'
      | none => Forwarded x m m' ∧ m'.world.dicts = m.world.dicts
  | .ended (.ok (.completed r)) => m'.place = m.place ∧ m'.deed = .gave (.ok (.completed r)) ∧
      m'.world = m.world
  | .ended (.raised e) => m'.place = m.place ∧
      (∃ e', m'.deed = .gave (.error e') ∧ Passed e e') ∧ m'.world.dicts = m.world.dicts
  | .ended .exhausted => False

/-- A history that begins in a world, and in which each moment follows from the one before. -/
structure Lawful (call : Value → List Value → Exec (World L) Value) (D : Nat → Prop) (live : Nat)
    (start : World L) (log : History L) : Prop where
  first : ∀ m ∈ log.head?, Same D start m.world
  chain : log.IsChain (Moment.Leads call D live)

/-- How often the source has been driven since the driver has sent a value. -/
def rounds (log : History L) : Nat :=
  log.foldl (fun n m =>
    match m.deed with
    | .sent _ => 0
    | .begun _ => n + 1
    | _ => n) 0

/-- Why a history breaks off: a computation or a function does not come back, or the loop has been
through all its rounds. -/
inductive Cut (call : Value → List Value → Exec (World L) Value) (live bound : Nat)
    (log : History L) : Prop where
  | source {m} (last : m ∈ log.getLast?) (deed : m.deed = .ended .exhausted)
  | function {m x o parameters} (last : m ∈ log.getLast?)
      (deed : m.deed = .ended (.ok (.suspended x))) (asks : asked x = some (o, parameters))
      (hangs : Hangs call live (m.world.addToken x).2 o parameters)
  | rounds (all : bound ≤ rounds log)

/-! ## The session -/

/-- Keeps in the history what a source is driven with and how the drive ends. -/
def watched (place : Nat) (c : Source (World L)) : Source (World L × History L) := fun v p =>
  ((c v p.1).1, ((c v p.1).2,
    p.2 ++ [⟨place, .begun v, p.1⟩] ++ [⟨place, .ended (c v p.1).1, (c v p.1).2⟩]))

/-- A world with a history, and the lives of handled computations. -/
abbrev Shared (L : Language) := (World L × History L) × (Nat → Life Phase)

def Shared.record (place : Nat) (deed : Deed) (p : Shared L) : Shared L :=
  ((p.1.1, p.1.2 ++ [⟨place, deed, p.1.1⟩]), p.2)

def Shared.change (f : World L → World L) (p : Shared L) : Shared L := ((f p.1.1, p.1.2), p.2)

section

variable (program : Program L) (steps depth id live bound : Nat) (c : Nat → Source (World L))

def loop (place : Nat) : Phase → Value → Exec (World L × History L) (Move Phase) :=
  Dispatch.advance (kernel program steps (depth + 2)).beside (table id live)
    (watched place (c place)) bound

def handled (place : Nat) : Source (Shared L) :=
  Life.drive (kernel program steps (depth + 2)).beside.beside.mint (Cell.nth place) fun phase v =>
    (loop program steps depth id live bound c place phase v).beside

/-- The same computation, with what its driver sends and sees in the history. -/
def driven (place : Nat) : Source (Shared L) := fun v => do
  Exec.modify (Shared.record place (.sent v))
  let sight ← (handled program steps depth id live bound c place v).look
  Exec.modify (Shared.record place (.gave sight))
  match sight with
  | .ok step => return step
  | .error e => Exec.raise e

end

/-- Nobody but the handlers writes the mappings of `D`: neither the computations, nor the driver,
nor the functions that are to modify a content. Such a function knows nothing of the token of the
action that it is called for. -/
structure Undisturbed (call : Value → List Value → Exec (World L) Value) (D : Nat → Prop)
    (live : Nat) (c : Nat → Source (World L)) (turns : List (Turn (World L))) : Prop where
  sources : ∀ place v w, Same D w (c place v w).2
  changes : ∀ t ∈ turns, ∀ w, Same D w (t.change w)
  calls : ∀ place v w x w' o parameters, c place v w = (.ok (.suspended x), w') →
    asked x = some (o, parameters) →
    Tame call D live w'.tokens.next (w'.addToken x).2 o parameters

/-! ## One drive -/

section

variable {call : Value → List Value → Exec (World L) Value} {D : Nat → Prop} {live : Nat}
  {start : World L}

theorem Lawful.init {log : History L} {m : Moment L}
    (lawful : Lawful call D live start (log ++ [m])) : Lawful call D live start log := by
  refine ⟨fun m' hm' => lawful.first m' ?_, (List.isChain_append.mp lawful.chain).1⟩
  rw [List.head?_append, Option.mem_def.mp hm']
  rfl

theorem lawful_after {log : History L} {m m' : Moment L} :
    Lawful call D live start (log ++ [m] ++ [m']) ↔
      Lawful call D live start (log ++ [m]) ∧ m.Leads call D live m' := by
  constructor
  · intro lawful
    have leads := (List.isChain_append.mp lawful.chain).2.2
    exact ⟨lawful.init, leads m (by simp) m' rfl⟩
  · rintro ⟨⟨first, chain⟩, leads⟩
    refine ⟨?_, List.isChain_append.mpr ⟨chain, List.isChain_singleton m', ?_⟩⟩
    · rw [List.head?_append, List.head?_append] at *
      cases hlog : log.head? with
      | none => simpa [hlog] using first
      | some m₀ => simpa [hlog] using first
    · simpa using leads

theorem rounds_concat (log : History L) (m : Moment L) :
    rounds (log ++ [m]) =
      match m.deed with
      | .sent _ => 0
      | .begun _ => rounds log + 1
      | _ => rounds log := by
  rw [rounds, List.foldl_append]
  rfl

/-- What the end of a history allows next: the decision of a loop, or an error in its place. -/
def Due (call : Value → List Value → Exec (World L) Value) (D : Nat → Prop) (live : Nat)
    (start : World L) (place : Nat) (w : World L) (log : History L) : Except Error Decision → Prop
  | .ok (.proceed u) => Lawful call D live start (log ++ [⟨place, .begun u, w⟩])
  | .ok (.stop (.suspend x phase)) => phase = .forwarding ∧
      Lawful call D live start (log ++ [⟨place, .gave (.ok (.suspended x)), w⟩])
  | .ok (.stop (.complete r)) =>
      Lawful call D live start (log ++ [⟨place, .gave (.ok (.completed r)), w⟩])
  | .error e => ∀ e' w', Passed e e' → w'.dicts = w.dicts →
      Lawful call D live start (log ++ [⟨place, .gave (.error e'), w'⟩])

end

theorem dicts_note (n : Note) (w : World L) : (note n w).2.dicts = w.dicts := by
  simp only [note, Exec.modify]
  split <;> rfl

section

variable {program : Program L} {steps depth id live bound : Nat} {D : Nat → Prop}
  {c : Nat → Source (World L)} {turns : List (Turn (World L))} {start : World L}

variable (program steps depth) in
theorem fail_eq (cause : Cause Value) (w : World L) {α : Type} :
    ∃ e, e.cause = cause ∧
      (Host.fail (kernel program steps (depth + 2)) cause : Exec (World L) α) w =
        (.raised e, { w with nextId := w.nextId + 1 }) := ⟨_, rfl, rfl⟩

theorem due_react (undisturbed : Undisturbed (kernel program steps (depth + 1)).call D live c turns)
    {place : Nat} {v : Value} {w w₁ w₂ : World L} {log : History L} {step : Step}
    {d : Except Error Decision} (drive : c place v w = (.ok step, w₁))
    (lawful : Lawful (kernel program steps (depth + 1)).call D live start
      (log ++ [⟨place, .ended (.ok step), w₁⟩]))
    (reacts : react (kernel program steps (depth + 2)) (table id live) step w₁ = (.of d, w₂)) :
    Due (kernel program steps (depth + 1)).call D live start place w₂
      (log ++ [⟨place, .ended (.ok step), w₁⟩]) d := by
  cases step with
  | completed r =>
    obtain ⟨rfl, rfl⟩ := Exec.pure_eq_of.mp reacts
    exact lawful_after.mpr ⟨lawful, rfl, rfl, rfl⟩
  | suspended x =>
    cases asks : asked x with
    | some op =>
      obtain ⟨o, parameters⟩ := op
      have tame := undisturbed.calls _ _ _ _ _ _ _ drive asks
      have next {m : Moment L} (hplace : m.place = place)
          (h : Served.Next (kernel program steps (depth + 1)).call D live x o parameters
            ⟨place, .ended (.ok (.suspended x)), w₁⟩ m) :
          Moment.Leads (kernel program steps (depth + 1)).call D live
            ⟨place, .ended (.ok (.suspended x)), w₁⟩ m := by
        simp only [Moment.Leads, asks]
        exact ⟨hplace, h⟩
      generalize hr : Result.of d = r at reacts
      cases react_asked asks tame reacts with
      | answered served =>
        obtain rfl : d = .ok _ := Result.of_inj.mp hr
        exact lawful_after.mpr ⟨lawful, next rfl (.answered served rfl rfl)⟩
      | failed served =>
        obtain rfl : d = .error _ := Result.of_inj.mp hr
        intro e' w' passed kept
        exact lawful_after.mpr ⟨lawful, next rfl (.failed served rfl passed kept)⟩
      | stuck => exact absurd hr (Result.of_ne_exhausted d)
    | none =>
      -- The names of the action need not be such that a table looks them up.
      have next {m : Moment L} (hplace : m.place = place)
          (h : Forwarded x ⟨place, .ended (.ok (.suspended x)), w₁⟩ m)
          (kept : m.world.dicts = w₁.dicts) :
          Moment.Leads (kernel program steps (depth + 1)).call D live
            ⟨place, .ended (.ok (.suspended x)), w₁⟩ m := by
        simp only [Moment.Leads, asks]
        exact ⟨hplace, h, kept⟩
      simp only [react, Dispatch.resolve] at reacts
      rcases claim_other id live asks with claim | ⟨name, claim, unnamed⟩
      · simp only [claim] at reacts
        obtain ⟨hd, rfl⟩ := Prod.mk.inj reacts
        obtain rfl : d = .ok _ := Result.of_inj.mp hd.symm
        exact ⟨rfl, lawful_after.mpr ⟨lawful, next rfl (.forwarded rfl) (dicts_note _ _)⟩⟩
      · simp only [claim] at reacts
        obtain ⟨e, cause, fails⟩ := fail_eq program steps depth
          (.refused name.keyRefusal) w₁ (α := Decision)
        obtain ⟨hd, rfl⟩ := Prod.mk.inj (fails.symm.trans reacts)
        obtain rfl : d = .error e := Result.of_inj.mp hd.symm
        intro e' w' passed kept
        have plain : e.kind ≠ .stopIteration := by
          simp [ErrorOf.kind, cause, Cause.kind, Value.keyRefusal, Refusal.kind]
        obtain rfl := passed plain
        exact lawful_after.mpr ⟨lawful, next rfl (.refused unnamed rfl cause) kept⟩

theorem hangs_of_exhausted
    (undisturbed : Undisturbed (kernel program steps (depth + 1)).call D live c turns) {place : Nat}
    {v : Value} {w w₁ w₂ : World L} {step : Step} (drive : c place v w = (.ok step, w₁))
    (reacts : react (kernel program steps (depth + 2)) (table id live) step w₁ =
      (.exhausted, w₂)) :
    ∃ x o parameters, step = .suspended x ∧ asked x = some (o, parameters) ∧
      Hangs (kernel program steps (depth + 1)).call live (w₁.addToken x).2 o parameters := by
  cases step with
  | completed r => cases reacts
  | suspended x =>
    cases asks : asked x with
    | some op =>
      obtain ⟨o, parameters⟩ := op
      have tame := undisturbed.calls _ _ _ _ _ _ _ drive asks
      cases react_asked asks tame reacts with
      | stuck hangs => exact ⟨x, o, parameters, rfl, asks, hangs⟩
    | none =>
      simp only [react, Dispatch.resolve] at reacts
      rcases claim_other id live asks with claim | ⟨name, claim, -⟩ <;>
        simp only [claim] at reacts <;> cases reacts

theorem Due.lawful {call : Value → List Value → Exec (World L) Value} {live place : Nat}
    {w : World L} {log : History L} {d : Except Error Decision}
    (due : Due call D live start place w log d) : Lawful call D live start log := by
  rcases d with e | v | ⟨x, phase⟩ | r
  · exact (due e w (fun _ => rfl) rfl).init
  · exact Lawful.init due
  · exact due.2.init
  · exact Lawful.init due

/-- How a loop ends: its end may come next in the history, or the history is cut. -/
inductive LoopEnds (call : Value → List Value → Exec (World L) Value) (D : Nat → Prop)
    (live bound : Nat) (start : World L) (place : Nat) :
    Result (Move Phase) → World L × History L → Prop where
  | ended {o w log} (due : Due call D live start place w log (o.map .stop)) :
      LoopEnds call D live bound start place (.of o) (w, log)
  | cut {w log} (lawful : Lawful call D live start log) (cut : Cut call live bound log) :
      LoopEnds call D live bound start place .exhausted (w, log)

theorem loopEnds_proceed
    (undisturbed : Undisturbed (kernel program steps (depth + 1)).call D live c turns) {place : Nat}
    {n : Nat} {w : World L} {log : History L} {d : Decision} {r : Result (Move Phase)}
    {p : World L × History L}
    (due : Due (kernel program steps (depth + 1)).call D live start place w log (.ok d))
    (enough : bound ≤ rounds log + n)
    (run : proceed (kernel program steps (depth + 2)).beside (table id live)
      (watched place (c place)) n d (w, log) = (r, p)) :
    LoopEnds (kernel program steps (depth + 1)).call D live bound start place r p := by
  -- The induction is on the rounds that are left. What the decision is due to is the invariant.
  induction n generalizing w log d with
  | zero =>
    cases d with
    | stop move =>
      obtain ⟨rfl, rfl⟩ := Prod.mk.inj run
      exact .ended (o := .ok move) due
    | proceed v =>
      obtain ⟨rfl, rfl⟩ := Prod.mk.inj run
      exact .cut due.lawful (.rounds enough)
  | succ n ih =>
    cases d with
    | stop move =>
      obtain ⟨rfl, rfl⟩ := Prod.mk.inj run
      exact .ended (o := .ok move) due
    | proceed v =>
      rcases drive : c place v w with ⟨r₁, w₁⟩
      let log₁ := log ++ [⟨place, .begun v, w⟩] ++ [⟨place, .ended r₁, w₁⟩]
      have lawful : Lawful (kernel program steps (depth + 1)).call D live start log₁ := by
        have same := undisturbed.sources place v w
        rw [drive] at same
        exact lawful_after.mpr ⟨due, rfl, ⟨r₁, rfl⟩, same⟩
      have last : _ ∈ log₁.getLast? := List.getLast?_concat
      have enough : bound ≤ rounds log₁ + n := by
        simp only [log₁, rounds_concat]
        omega
      have watches : watched place (c place) v (w, log) = (r₁, (w₁, log₁)) := by
        simp only [watched, drive, log₁]
      simp only [proceed] at run
      -- The source does not come back, raises, or gives a step that the loop reacts to.
      rcases r₁.exhausted_or_of with rfl | ⟨e | step, rfl⟩
      · rw [bind_exhausted watches] at run
        obtain ⟨rfl, rfl⟩ := Prod.mk.inj run
        exact .cut lawful (.source last rfl)
      · rw [bind_raised watches] at run
        obtain ⟨rfl, rfl⟩ := Prod.mk.inj run
        exact .ended (o := .error e) fun e' w' passed kept =>
          lawful_after.mpr ⟨lawful, rfl, ⟨e', rfl, passed⟩, kept⟩
      · rw [Exec.bind_ok watches, Dispatch.react_beside] at run
        rcases reacts : react (kernel program steps (depth + 2)) (table id live) step w₁ with
          ⟨r₂, w₂⟩
        have besides : (react (kernel program steps (depth + 2)) (table id live) step).beside
            (w₁, log₁) = (r₂, (w₂, log₁)) := Exec.beside_eq.mpr ⟨reacts, rfl⟩
        rcases r₂.exhausted_or_of with rfl | ⟨e | d, rfl⟩
        · rw [bind_exhausted besides] at run
          obtain ⟨rfl, rfl⟩ := Prod.mk.inj run
          obtain ⟨x, o, parameters, rfl, asks, hangs⟩ := hangs_of_exhausted undisturbed drive reacts
          exact .cut lawful (.function last rfl asks hangs)
        · rw [bind_raised besides] at run
          obtain ⟨rfl, rfl⟩ := Prod.mk.inj run
          exact .ended (o := .error e) (due_react undisturbed drive lawful reacts)
        · rw [Exec.bind_ok besides] at run
          exact ih (due_react (d := .ok d) undisturbed drive lawful reacts) enough run

end

/-! ## The whole session -/

/-- No handled computation is in a drive, and none waits for the computation of a handler. -/
def Waiting (lives : Nat → Life Phase) : Prop :=
  ∀ k, lives k = .fresh .start ∨ lives k = .suspended .forwarding ∨ lives k = .finished

theorem Waiting.update {lives : Nat → Life Phase} (waiting : Waiting lives) (place : Nat)
    (m : Life Phase) {l : Life Phase} (h : l = .suspended .forwarding ∨ l = .finished) :
    Waiting (Function.update (Function.update lives place m) place l) := by
  intro k
  by_cases hk : k = place
  · subst hk
    rw [Function.update_self]
    exact Or.inr h
  · rw [Function.update_of_ne hk, Function.update_of_ne hk]
    exact waiting k

theorem Waiting.enters {lives : Nat → Life Phase} (waiting : Waiting lives) (program : Program L)
    (steps depth place : Nat) (v : Value) :
    lives place = .finished ∨ ∃ phase u u', (lives place).enters? v = some (phase, u) ∧
      Dispatch.takeUp (kernel program steps (depth + 2)).beside phase u =
        (pure (.proceed u') : Exec (World L × History L) Decision) := by
  rcases waiting place with life | life | life
  · exact Or.inr ⟨.start, .nil, .nil, by rw [life]; rfl, rfl⟩
  · exact Or.inr ⟨.forwarding, v, v, by rw [life]; rfl, rfl⟩
  · exact Or.inl life

/-- Between two drives the history is lawful, and the last moment has left the mappings as they
are. -/
structure Rests (call : Value → List Value → Exec (World L) Value) (D : Nat → Prop) (live : Nat)
    (start : World L) (p : Shared L) : Prop where
  lawful : Lawful call D live start p.1.2
  last : ∀ m ∈ p.1.2.getLast?, (∃ sight, m.deed = .gave sight) ∧ Same D m.world p.1.1
  first : p.1.2 = [] → Same D start p.1.1
  lives : Waiting p.2

section

variable {program : Program L} {steps depth id live bound : Nat} {D : Nat → Prop}
  {c : Nat → Source (World L)} {turns : List (Turn (World L))} {start : World L}

theorem Rests.sent {call : Value → List Value → Exec (World L) Value} {p : Shared L}
    (rests : Rests call D live start p) (place : Nat) (v : Value) :
    Lawful call D live start (p.1.2 ++ [⟨place, .sent v, p.1.1⟩]) := by
  -- The first moment follows from the beginning, and every other one from the moment before.
  rcases List.eq_nil_or_concat p.1.2 with empty | ⟨log, m, hlog⟩
  · rw [empty]
    refine ⟨fun m hm => ?_, List.isChain_singleton _⟩
    obtain rfl : _ = m := by simpa using hm
    exact rests.first empty
  · have lawful := rests.lawful
    obtain ⟨⟨sight, hdeed⟩, same⟩ := rests.last m (by simp [hlog])
    rw [hlog, List.concat_eq_append] at lawful ⊢
    refine lawful_after.mpr ⟨lawful, ?_⟩
    simp only [Moment.Leads, hdeed]
    exact ⟨⟨v, rfl⟩, same⟩

theorem Rests.again {call : Value → List Value → Exec (World L) Value}
    {place : Nat} {sight : Sight} {w : World L} {log : History L} {lives : Nat → Life Phase}
    (lawful : Lawful call D live start (log ++ [⟨place, .gave sight, w⟩]))
    (waiting : Waiting lives) :
    Rests call D live start ((w, log ++ [⟨place, .gave sight, w⟩]), lives) := by
  refine ⟨lawful, ?_, fun empty => by simp at empty, waiting⟩
  intro m hm
  obtain rfl : _ = m := by simpa using hm
  exact ⟨⟨sight, rfl⟩, fun _ _ => rfl⟩

variable (program steps depth) in
theorem seal_shared (e : Error) (w : World L) (log : History L) (lives : Nat → Life Phase) :
    ∃ e' w', Life.seal (kernel program steps (depth + 2)).beside.beside.mint
        (.error e : Except Error (Move Phase)) ((w, log), lives) =
          (.raised e', ((w', log), lives)) ∧
      Passed e e' ∧ w'.dicts = w.dicts := by
  by_cases stop : e.kind = .stopIteration
  · simp only [Life.seal, if_pos stop]
    exact ⟨_, _, rfl, fun other => absurd stop other, rfl⟩
  · simp only [Life.seal, if_neg stop]
    exact ⟨e, w, rfl, fun _ => rfl, rfl⟩

/-- How a drive ends: the history is lawful with what the driver sees then, or it is cut. -/
inductive DriveEnds (call : Value → List Value → Exec (World L) Value) (D : Nat → Prop)
    (live bound : Nat) (start : World L) (place : Nat) : Result Step → Shared L → Prop where
  | gave (sight : Sight) {q} (rests : Rests call D live start (q.record place (.gave sight))) :
      DriveEnds call D live bound start place (.of sight) q
  | cut {q} (lawful : Lawful call D live start q.1.2) (cut : Cut call live bound q.1.2) :
      DriveEnds call D live bound start place .exhausted q

theorem driveEnds_sealed {call : Value → List Value → Exec (World L) Value} {place : Nat}
    {o : Except Error (Move Phase)} {w : World L} {log : History L} {lives : Nat → Life Phase}
    {m : Life Phase} {r : Result Step} {q : Shared L}
    (due : Due call D live start place w log (o.map .stop)) (waiting : Waiting lives)
    (sealed : Life.seal (kernel program steps (depth + 2)).beside.beside.mint o
      ((w, log), Function.update (Function.update lives place m) place (Life.left o)) = (r, q)) :
    DriveEnds call D live bound start place r q := by
  rcases o with e | ⟨x, phase⟩ | result
  · obtain ⟨e', w', raised, passed, kept⟩ := seal_shared program steps depth e w log _
    obtain ⟨rfl, rfl⟩ := Prod.mk.inj (raised.symm.trans sealed)
    exact .gave (.error e') (.again (due e' w' passed kept)
      (waiting.update place m (Or.inr rfl)))
  · obtain ⟨rfl, next⟩ := due
    obtain ⟨rfl, rfl⟩ := Prod.mk.inj sealed
    exact .gave (.ok (.suspended x)) (.again next (waiting.update place m (Or.inl rfl)))
  · obtain ⟨rfl, rfl⟩ := Prod.mk.inj sealed
    exact .gave (.ok (.completed result))
      (.again due (waiting.update place m (Or.inr rfl)))

theorem driveEnds_handled
    (undisturbed : Undisturbed (kernel program steps (depth + 1)).call D live c turns) {place : Nat}
    {v : Value} {p q : Shared L} {r : Result Step}
    (rests : Rests (kernel program steps (depth + 1)).call D live start p)
    (run : handled program steps depth id live bound c place v (p.record place (.sent v)) =
      (r, q)) :
    DriveEnds (kernel program steps (depth + 1)).call D live bound start place r q := by
  have sent := rests.sent place v
  have waiting := rests.lives
  obtain ⟨⟨w, log⟩, lives⟩ := p
  simp only at sent waiting
  let p₁ : Shared L := ((w, log ++ [⟨place, .sent v, w⟩]), lives)
  rcases waiting.enters program steps depth place v with life | ⟨phase, u, u', entry, takes⟩
  · have done : handled program steps depth id live bound c place v p₁ =
      (.ok (.completed .nil), p₁) := Life.drive_finished life
    obtain ⟨rfl, rfl⟩ := Prod.mk.inj (done.symm.trans run)
    exact .gave (.ok (.completed .nil))
      (.again (lawful_after.mpr ⟨sent, rfl, rfl, Or.inr rfl⟩) waiting)
  · have enters : handled program steps depth id live bound c place v p₁ =
        Life.enter (kernel program steps (depth + 2)).beside.beside.mint (Cell.nth place)
          (fun phase v => (loop program steps depth id live bound c place phase v).beside) phase u
          p₁ := Life.drive_entered entry
    have loops : loop program steps depth id live bound c place phase u =
        proceed (kernel program steps (depth + 2)).beside (table id live) (watched place (c place))
          bound (.proceed u') := by
      rw [loop, Dispatch.advance, takes, pure_bind]
    rcases hloop : loop program steps depth id live bound c place phase u p₁.1 with ⟨r₁, w', log'⟩
    have due : Due (kernel program steps (depth + 1)).call D live start place w p₁.1.2
        (.ok (.proceed u')) := lawful_after.mpr ⟨sent, rfl, rfl, Or.inl ⟨u', rfl⟩⟩
    -- The rounds are counted from here on, so the loop still has all of them.
    have ends := loopEnds_proceed undisturbed due (Nat.le_add_left bound _) (loops ▸ hloop)
    have besides : (loop program steps depth id live bound c place phase u).beside
        ((Cell.nth place).set (.running phase) p₁) = (r₁, ((w', log'), _)) :=
      Exec.beside_eq.mpr ⟨hloop, rfl⟩
    have run := enters.symm.trans run
    cases ends with
    | ended due => exact driveEnds_sealed due waiting ((Life.enter_ended _ besides).symm.trans run)
    | cut lawful cut =>
      obtain ⟨rfl, rfl⟩ := Prod.mk.inj ((Life.enter_exhausted _ besides).symm.trans run)
      exact .cut lawful cut

theorem Same.trans {w w₁ w₂ : World L} (h : Same D w w₁) (h' : Same D w₁ w₂) : Same D w w₂ :=
  fun d hd => (h' d hd).trans (h d hd)

theorem Rests.change {call : Value → List Value → Exec (World L) Value} {p : Shared L}
    (rests : Rests call D live start p) {f : World L → World L} (h : ∀ w, Same D w (f w)) :
    Rests call D live start (p.change f) :=
  ⟨rests.lawful, fun m hm => ⟨(rests.last m hm).1, (rests.last m hm).2.trans (h p.1.1)⟩,
    fun empty => (rests.first empty).trans (h p.1.1), rests.lives⟩

theorem driven_of {place : Nat} {v : Value} {p q : Shared L} {sight : Sight}
    (h : handled program steps depth id live bound c place v (p.record place (.sent v)) =
      (.of sight, q)) :
    driven program steps depth id live bound c place v p =
      (.of sight, q.record place (.gave sight)) := by
  have look := Exec.look_eq.mpr ⟨sight, rfl, h⟩
  simp only [driven]
  rw [Exec.bind_ok (rfl : Exec.modify (Shared.record place (.sent v)) p = _), Exec.bind_ok look]
  cases sight <;> rfl

theorem driven_exhausted {place : Nat} {v : Value} {p q : Shared L}
    (h : handled program steps depth id live bound c place v (p.record place (.sent v)) =
      (.exhausted, q)) :
    driven program steps depth id live bound c place v p = (.exhausted, q) := by
  simp only [driven]
  rw [Exec.bind_ok (rfl : Exec.modify (Shared.record place (.sent v)) p = _)]
  simp only [Exec.look, Exec.rescue, Bind.bind, Exec.bind, h]

/-- How a session ends: all turns have been taken, or the history is cut. -/
inductive SessionEnds (call : Value → List Value → Exec (World L) Value) (live bound : Nat)
    (log : History L) : Result (List Sight) → Prop where
  | all {seen} (last : ∀ m ∈ log.getLast?, ∃ sight, m.deed = .gave sight) :
      SessionEnds call live bound log (.ok seen)
  | cut (cut : Cut call live bound log) : SessionEnds call live bound log .exhausted

/-- However the turns of the driver interleave the drives, the history is lawful. -/
theorem lawful_turns
    (undisturbed : Undisturbed (kernel program steps (depth + 1)).call D live c turns)
    {next : List (Turn (World L))} (among : ∀ t ∈ next, t ∈ turns) {p q : Shared L}
    {r : Result (List Sight)} (rests : Rests (kernel program steps (depth + 1)).call D live start p)
    (run : takeTurns (driven program steps depth id live bound c) Shared.change next p = (r, q)) :
    Lawful (kernel program steps (depth + 1)).call D live start q.1.2 ∧
      SessionEnds (kernel program steps (depth + 1)).call live bound q.1.2 r := by
  -- The history is lawful so far and all loops rest, which every turn of the driver keeps.
  induction next generalizing p q r with
  | nil =>
    obtain ⟨rfl, rfl⟩ := Prod.mk.inj run
    exact ⟨rests.lawful, .all fun m hm => (rests.last m hm).1⟩
  | cons t next ih =>
    obtain ⟨ht, among⟩ := List.forall_mem_cons.mp among
    have rests := rests.change (undisturbed.changes t ht)
    simp only [takeTurns] at run
    rw [Exec.bind_ok (rfl : Exec.modify (Shared.change t.change) p = _)] at run
    rcases hdrive : handled program steps depth id live bound c t.place t.value
      ((p.change t.change).record t.place (.sent t.value)) with ⟨r₁, q₁⟩
    cases driveEnds_handled undisturbed rests hdrive with
    | cut lawful cut =>
      have look : (driven program steps depth id live bound c t.place t.value).look
          (p.change t.change) = (.exhausted, q₁) := by
        simp only [Exec.look, Exec.rescue, bind_exhausted (driven_exhausted hdrive)]
      rw [bind_exhausted look] at run
      obtain ⟨rfl, rfl⟩ := Prod.mk.inj run
      exact ⟨lawful, .cut cut⟩
    | gave sight rests =>
      rw [Exec.bind_ok (Exec.look_eq.mpr ⟨sight, rfl, driven_of hdrive⟩)] at run
      rcases hrest : takeTurns (driven program steps depth id live bound c) Shared.change next
        (q₁.record t.place (.gave sight)) with ⟨r', q'⟩
      obtain ⟨lawful, ends⟩ := ih among rests hrest
      cases ends with
      | all last =>
        rw [Exec.bind_ok hrest] at run
        obtain ⟨rfl, rfl⟩ := Prod.mk.inj run
        exact ⟨lawful, .all last⟩
      | cut cut =>
        rw [bind_exhausted hrest] at run
        obtain ⟨rfl, rfl⟩ := Prod.mk.inj run
        exact ⟨lawful, .cut cut⟩

end

/-! ## The store -/

structure Done where
  operation : Operation
  parameters : List Value
  answer : Value

/-- The key and the content that an operation has stored. -/
def Done.stored? : Done → Option (Value × Value)
  | ⟨.put, [key, content], _⟩ => some (key, content)
  | ⟨.modify, [key, _], new⟩ => some (key, new)
  | _ => none

def Done.apply (S : Assoc Value) (d : Done) : Assoc Value :=
  match d.stored? with
  | some (key, content) => S.put key content
  | none => S

def Deed.asked? : Deed → Option (Operation × List Value)
  | .ended (.ok (.suspended x)) => asked x
  | _ => none

/-- The operation that is answered between two moments. -/
def Moment.done? (m m' : Moment L) : Option Done :=
  match m.deed.asked?, m'.deed with
  | some (o, parameters), .begun answer => some ⟨o, parameters, answer⟩
  | _, _ => none

/-- The operations that have been answered in a history, in their order. -/
def completed : History L → List Done
  | m :: m' :: log => (m.done? m').toList ++ completed (m' :: log)
  | _ => []

section

variable {call : Value → List Value → Exec (World L) Value} {D : Nat → Prop} {live : Nat}

theorem same_setDict {w : World L} {d dict : Nat} (h : d ≠ dict) (entries : Assoc Value) :
    (setDict dict entries w).dicts.get? d = w.dicts.get? d :=
  Pool.get?_set_of_ne _ _ h.symm

theorem dicts_attempt (token : Nat) (o : Outcome) (w : World L) :
    (attempt token o w).2.dicts = w.dicts := by
  cases known : w.tokens.get? token with
  | none => rw [attempt_unknown known]
  | some t =>
    cases decided : t.outcome with
    | none => rw [attempt_pending known decided]
    | some o' =>
      obtain ⟨e, -, run⟩ := attempt_settled (o := o) known decided
      rw [run]

theorem dicts_resumed (x : Value) (token : Nat) (answer : Value) (w : World L) :
    (resumed x token answer w).dicts = w.dicts :=
  (dicts_note _ _).trans (dicts_attempt _ _ _)

def left (S : Assoc Value) (o : Operation) (parameters : List Value) :
    Except Error Value → Assoc Value
  | .ok answer => Done.apply S ⟨o, parameters, answer⟩
  | .error _ => S

theorem Served.dicts {w w' : World L} {S : Assoc Value} {o : Operation} {parameters : List Value}
    {r : Except Error Value} (hlive : D live) (held : w.dicts.get? live = some S)
    (served : Served call D live w o parameters r w') :
    (∀ d, D d → d ≠ live → w'.dicts.get? d = w.dicts.get? d) ∧
      w'.dicts.get? live = some (left S o parameters r) := by
  have dict {w : World L} (held : w.dicts.get? live = some S) : w.dict live = S := by
    simp only [dict, held, Option.getD_some]
  cases served with
  | get => exact ⟨fun _ _ _ => rfl, held⟩
  | put =>
    rw [dict held]
    exact ⟨fun _ _ hd => same_setDict hd _, Pool.get?_set_self held _⟩
  | modify known called kept =>
    have held' := (kept live hlive).trans held
    rw [dict held']
    exact ⟨fun d hD hd => (same_setDict hd _).trans (kept d hD), Pool.get?_set_self held' _⟩
  | raised known called kept => exact ⟨fun d hD _ => kept d hD, (kept live hlive).trans held⟩
  | notKey suited unknown cause kept =>
    rw [kept]
    exact ⟨fun _ _ _ => rfl, held⟩
  | unsuited unsuited cause kept =>
    rw [kept]
    exact ⟨fun _ _ _ => rfl, held⟩

theorem Moment.Leads.dicts {m m' : Moment L} {S : Assoc Value} (hlive : D live)
    (held : m.world.dicts.get? live = some S) (leads : m.Leads call D live m') :
    (∀ d, D d → d ≠ live → m'.world.dicts.get? d = m.world.dicts.get? d) ∧
      m'.world.dicts.get? live = some ((m.done? m').toList.foldl Done.apply S) := by
  -- Only an operation that is answered changes the store, and all other moments leave it.
  have still (same : Same D m.world m'.world) (none : m.deed.asked? = none) :
      (∀ d, D d → d ≠ live → m'.world.dicts.get? d = m.world.dicts.get? d) ∧
        m'.world.dicts.get? live = some ((m.done? m').toList.foldl Done.apply S) := by
    simp only [Moment.done?, none]
    exact ⟨fun d hD _ => same d hD, (same live hlive).trans held⟩
  have kept (kept : m'.world.dicts = m.world.dicts) : Same D m.world m'.world :=
    fun d _ => by rw [kept]
  unfold Moment.Leads at leads
  rcases hdeed : m.deed with v | sight | v | (⟨x⟩ | ⟨r⟩) | e | _ <;> simp only [hdeed] at leads
  · exact still (kept (by rw [leads.2.1])) (by rw [hdeed]; rfl)
  · exact still leads.2 (by rw [hdeed]; rfl)
  · exact still leads.2.2 (by rw [hdeed]; rfl)
  · cases asks : asked x with
    | none =>
      simp only [asks] at leads
      exact still (kept leads.2.2) (by rw [hdeed]; exact asks)
    | some op =>
      obtain ⟨o, parameters⟩ := op
      simp only [asks] at leads
      have asked : m.deed.asked? = some (o, parameters) := by
        rw [hdeed]
        exact asks
      have held' : (m.world.addToken x).2.dicts.get? live = some S := held
      rcases leads.2 with ⟨served, deed, world⟩ | ⟨served, deed, passed, world⟩
      · simp only [Moment.done?, asked, deed, world, dicts_resumed]
        exact served.dicts hlive held'
      · simp only [Moment.done?, asked, deed, world]
        exact served.dicts hlive held'
  · exact still (kept (by rw [leads.2.2])) (by rw [hdeed]; rfl)
  · exact still (kept leads.2.2) (by rw [hdeed]; rfl)

/-- After all moments of a history the store is what the operations that have been answered make of
the first one. -/
theorem store_of_chain {m : Moment L} {log : History L} {S : Assoc Value} (hlive : D live)
    (held : m.world.dicts.get? live = some S)
    (chain : (m :: log).IsChain (Moment.Leads call D live)) {last : Moment L}
    (hlast : last ∈ (m :: log).getLast?) :
    last.world.dicts.get? live = some ((completed (m :: log)).foldl Done.apply S) ∧
      ∀ d, D d → d ≠ live → last.world.dicts.get? d = m.world.dicts.get? d := by
  induction log generalizing m S with
  | nil =>
    obtain rfl : m = last := by simpa using hlast
    exact ⟨held, fun _ _ _ => rfl⟩
  | cons m' log ih =>
    obtain ⟨leads, rest⟩ := List.isChain_cons_cons.mp chain
    obtain ⟨others, held'⟩ := leads.dicts hlive held
    obtain ⟨store, kept⟩ := ih held' rest (by simpa using hlast)
    refine ⟨?_, fun d hD hd => (kept d hD hd).trans (others d hD hd)⟩
    rw [store, completed, List.foldl_append]

/-- The content that was stored last under a key, or the one that was there before. -/
def lastStored (initial : Assoc Value) (key : Value) (done : List Done) : Option Value :=
  done.foldl (fun before d =>
    match d.stored? with
    | some (k, content) => if k.same key then some content else before
    | none => before) (initial.get? key)

theorem get?_foldl_apply {S : Assoc Value} (exact : ∀ e ∈ S, e.1.Exact) (key : Value)
    (done : List Done) (keys : ∀ d ∈ done, ∀ e ∈ d.stored?, e.1.Exact) :
    (done.foldl Done.apply S).get? key = lastStored S key done := by
  -- Equal keys may differ in their spelling, so each stored key has to be exact.
  induction done generalizing S with
  | nil => rfl
  | cons d done ih =>
    obtain ⟨own, keys⟩ := List.forall_mem_cons.mp keys
    rw [List.foldl_cons, lastStored, List.foldl_cons]
    cases stores : d.stored? with
    | none =>
      have same : d.apply S = S := by simp only [Done.apply, stores]
      rw [same]
      exact ih exact keys
    | some e =>
      have hkey := own e (by rw [stores]; rfl)
      have puts : d.apply S = S.put e.1 e.2 := by simp only [Done.apply, stores]
      rw [puts, ih (Assoc.exact_put exact hkey e.2) keys, lastStored, Assoc.get?_put exact hkey]

/-- At each moment of a lawful history the store is what the operations that have been answered
until then make of the first one. -/
theorem Lawful.store {log before after : History L} {m : Moment L} {S : Assoc Value}
    (lawful : Lawful call D live start log) (hlive : D live)
    (held : start.dicts.get? live = some S) (hlog : log = before ++ m :: after) :
    m.world.dicts.get? live = some ((completed (before ++ [m])).foldl Done.apply S) ∧
      ∀ d, D d → d ≠ live → m.world.dicts.get? d = start.dicts.get? d := by
  rcases before with _ | ⟨m₀, before⟩
  · have first := lawful.first m (by rw [hlog]; rfl)
    exact ⟨(first live hlive).trans held, fun d hD _ => first d hD⟩
  · have first := lawful.first m₀ (by rw [hlog]; rfl)
    have chain : (m₀ :: (before ++ [m])).IsChain (Moment.Leads call D live) := by
      have parts : log = (m₀ :: (before ++ [m])) ++ after := by simp [hlog]
      exact (List.isChain_append.mp (parts ▸ lawful.chain)).1
    have last : m ∈ (m₀ :: (before ++ [m])).getLast? := by
      rw [← List.cons_append, List.getLast?_append]
      rfl
    obtain ⟨store, kept⟩ := store_of_chain hlive ((first live hlive).trans held) chain last
    exact ⟨store, fun d hD hd => (kept d hD hd).trans (first d hD)⟩

end

/-! ## The handlers -/

/-- The handlers work on a new mapping with the entries of the first one. Reading their table gives
the table of that mapping. -/
theorem stateHandlers_eq (host : Host (World L)) (bound : Nat) {initial : Value}
    {entries : Assoc Value} {w : World L} (given : w.mapping? initial = some entries) :
    ∃ n t w', stateHandlers host bound initial w =
        (.ok (.tuple n [.dict t, .dict w.dicts.next]), w') ∧
      w'.dicts.get? w.dicts.next = some entries ∧
      (∀ d < w.dicts.next, w'.dicts.get? d = w.dicts.get? d) ∧
      readTable (.dict t) w' = (.ok (table w.nextId w.dicts.next), w') := by
  -- Three mappings come up: the copy, the entries of the one effect, and the table.
  let operations : Assoc Value :=
    [Operation.get, .put, .modify].map fun o => (.str o.name, o.handler w.nextId w.dicts.next)
  let p₁ := (w.dicts.add entries).2
  let p₂ := (p₁.add operations).2
  let p₃ := (p₂.add [(.str "state", .dict p₁.next)]).2
  let w' : World L := { w with dicts := p₃, nextId := w.nextId + 3 + 1 }
  have next₁ : p₁.next = w.dicts.next + 1 := Pool.next_add _ _
  have next₂ : p₂.next = w.dicts.next + 2 := by rw [Pool.next_add, next₁]
  have older {d : Nat} (hd : d < p₂.next) : p₃.get? d = p₂.get? d := Pool.get?_add_of_lt _ _ hd
  have old {d : Nat} (hd : d < p₁.next) : p₃.get? d = p₁.get? d :=
    (older (by omega)).trans (Pool.get?_add_of_lt _ _ hd)
  refine ⟨w.nextId + 3, p₂.next, w', ?_, ?_, ?_, ?_⟩
  · rw [stateHandlers, Exec.bind_ok (givenEntries_mapping host bound given)]
    rfl
  · exact (old (by omega)).trans (Pool.get?_add _ _)
  · intro d hd
    exact (old (by omega)).trans (Pool.get?_add_of_lt _ _ hd)
  · have outer : w'.mapping? (.dict p₂.next) = some [(.str "state", .dict p₁.next)] :=
      mapping?_dict (Pool.get?_add p₂ _)
    have inner : w'.mapping? (.dict p₁.next) = some operations :=
      mapping?_dict ((older (by omega)).trans (Pool.get?_add p₁ _))
    rw [readTable, Exec.bind_ok (read_mapping outer)]
    simp only [readEntries]
    rw [Exec.bind_ok (read_mapping inner)]
    rfl

/-- Computations that are handled with the table of one live mapping share a store, in whatever
order they are driven. The handlers work on a copy of the first mapping. In the history of a session
each operation is answered from the store as it is then, every other action is forwarded, and after
each moment the store is what the operations answered so far make of the copy. An operation that has
raised is none of them. The first mapping stays as it is. No operation stays without an answer but
where a function does not come back, or where a loop has been through all its rounds. -/
theorem handlers_keep_store (program : Program L) (steps depth bound : Nat) :
    (∀ (host : Host (World L)) (limit : Nat) (initial : Value) (entries : Assoc Value)
      (w : World L), w.mapping? initial = some entries →
      ∃ n t w', stateHandlers host limit initial w =
          (.ok (.tuple n [.dict t, .dict w.dicts.next]), w') ∧
        w'.dicts.get? w.dicts.next = some entries ∧
        (∀ d < w.dicts.next, w'.dicts.get? d = w.dicts.get? d) ∧
        readTable (.dict t) w' = (.ok (table w.nextId w.dicts.next), w')) ∧
    ∀ (id live : Nat) (D : Nat → Prop) (c : Nat → Source (World L)) (turns : List (Turn (World L)))
      (w : World L) (S : Assoc Value), D live →
      Undisturbed (kernel program steps (depth + 1)).call D live c turns →
      w.dicts.get? live = some S →
      let session := takeTurns (driven program steps depth id live bound c) Shared.change turns
        ((w, []), fun _ => .fresh .start)
      let log := session.2.1.2
      Lawful (kernel program steps (depth + 1)).call D live w log ∧
      SessionEnds (kernel program steps (depth + 1)).call live bound log session.1 ∧
      ∀ before m after, log = before ++ m :: after →
        m.world.dicts.get? live = some ((completed (before ++ [m])).foldl Done.apply S) ∧
        (∀ d, D d → d ≠ live → m.world.dicts.get? d = w.dicts.get? d) ∧
        ((∀ e ∈ S, e.1.Exact) →
          (∀ d ∈ completed (before ++ [m]), ∀ e ∈ d.stored?, e.1.Exact) →
          ∀ key, held m.world live key =
            (lastStored S key (completed (before ++ [m]))).getD .nil) := by
  refine ⟨fun host limit _ _ _ given => stateHandlers_eq host limit given, ?_⟩
  intro id live D c turns w S hlive undisturbed stored session log
  -- At the start there is no history, and no loop has begun.
  have rests : Rests (kernel program steps (depth + 1)).call D live w
      ((w, []), fun _ => .fresh .start) :=
    ⟨⟨fun m hm => by simp at hm, .nil⟩, fun m hm => by simp at hm, fun _ _ _ => rfl,
      fun _ => Or.inl rfl⟩
  obtain ⟨lawful, ends⟩ : Lawful (kernel program steps (depth + 1)).call D live w log ∧
      SessionEnds (kernel program steps (depth + 1)).call live bound log session.1 :=
    lawful_turns undisturbed (fun _ h => h) rests rfl
  refine ⟨lawful, ends, fun before m after hlog => ?_⟩
  obtain ⟨store, kept⟩ := lawful.store hlive stored hlog
  refine ⟨store, kept, fun exact keys key => ?_⟩
  rw [← get?_foldl_apply exact key _ keys]
  simp only [held, World.dict, store, Option.getD_some]

namespace SmallStore

def language : Language := ⟨Unit, Unit, Unit⟩

def program : Program language where
  call _ _ _ _ := return .nil
  advance _ _ _ _ := return .complete .nil
  delegate? _ := none
  names _ _ := false
  lost _ _ := []

def operation (name : String) (parameters : List Value) : Value :=
  .action 0 (.str "state") (.str name) 0 parameters

/-- Yields what it is told to, and completes with an answer that is a number. -/
def source (_ : Nat) (v : Value) : Exec (World language) Step :=
  match v with
  | .str "put" => return .suspended (operation "put" [.str "a", .int 7])
  | .str "get" => return .suspended (operation "get" [.str "a"])
  | .int n => return .completed (.int n)
  | _ => return .suspended (.action 0 (.str "e") (.str "o") 0 [])

def turns : List (Turn (World language)) :=
  [⟨0, id, .nil⟩, ⟨1, id, .nil⟩, ⟨0, id, .str "put"⟩, ⟨1, id, .str "get"⟩]

def start : World language := { memory := (), dicts := ⟨#[[(.str "a", .int 5)]]⟩ }

def log : History language :=
  (takeTurns (driven program 1 0 0 0 3 source) Shared.change turns
    ((start, []), fun _ => .fresh .start)).2.1.2

end SmallStore

open SmallStore in
/-- One computation stores a 7 and is forwarded, and then the other one reads the 7. -/
theorem handlers_keep_store_small :
    completed SmallStore.log = [⟨.put, [.str "a", .int 7], .nil⟩, ⟨.get, [.str "a"], .int 7⟩] ∧
      ∀ m ∈ SmallStore.log.getLast?, m.world.dicts.get? 0 = some [(.str "a", .int 7)] := by
  have undisturbed : Undisturbed (kernel program 1 1).call (· = 0) 0 source turns := by
    refine ⟨?_, ?_, ?_⟩
    · intro place v w
      unfold source
      split <;> exact fun _ _ => rfl
    · intro t ht w
      have same : t.change = id := by
        simp only [turns, List.mem_cons, List.not_mem_nil, or_false] at ht
        rcases ht with rfl | rfl | rfl | rfl <;> rfl
      rw [same]
      exact fun _ _ => rfl
    · intro place v w x w' o parameters drive asks
      unfold source at drive
      split at drive
      all_goals obtain ⟨hx, rfl⟩ := Prod.mk.inj drive
      · cases hx
        cases asks
        trivial
      · cases hx
        cases asks
        trivial
      · cases hx
      · cases hx
        cases asks
  have keeps := (handlers_keep_store program 1 0 3).2 0 0 (· = 0) source turns start
    [(.str "a", .int 5)] rfl undisturbed rfl
  refine ⟨rfl, ?_⟩
  intro m hm
  have hlog : SmallStore.log = SmallStore.log.dropLast ++ m :: [] := by
    rw [List.dropLast_append_getLast? m hm]
  exact (keeps.2.2 _ m [] hlog).1.trans (by rw [List.dropLast_append_getLast? m hm]; rfl)

end OneShot.World.State
