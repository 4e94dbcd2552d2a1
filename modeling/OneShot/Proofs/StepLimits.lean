import OneShot.Proofs.Forwarding
import OneShot.Proofs.Stack

/-!
# Limits and records of a tracer

A tracer lets a number of suspensions of its computation through and refuses the next one. What it
records of a run can be read off the drives of the computation.
-/

namespace OneShot.Tracing

open Exec

variable {L : Language} {S : Type}

/-! ## Runs of the computation -/

/-- A drive of a computation. The driver has changed the world before it. -/
structure Drive (L : Language) (S : Type) where
  turn : Turn (World L)
  before : World L
  sight : Sight
  after : World L × Life S

/-- The driver has taken these drives of a computation, one after the other. -/
inductive Course (c : Source (World L × Life S)) :
    World L × Life S → List (Drive L S) → World L × Life S → Prop where
  | nil {p} : Course c p [] p
  | cons {w l turn sight p ds p'} (drive : c turn.value (turn.change w, l) = (.of sight, p))
      (rest : Course c p ds p') : Course c (w, l) (⟨turn, turn.change w, sight, p⟩ :: ds) p'

def onWorld {X : Type} (change : World L → World L) (p : World L × X) : World L × X :=
  (change p.1, p.2)

/-! ## The log -/

/-- What goes into the log: the records of the tracer, and when the computation is driven. -/
inductive Mark where
  | record (e : Event)
  | driven (v : Value)

/-- A record of a tracer with this text. -/
def textRecord (w : World L) (label : Value) (text : String) : Mark :=
  .record (.traced ((w.snapshot? label).getD .nil) text)

def suspendedRecord (w : World L) (label : Value) (step : Nat) (action : Value) : Mark :=
  textRecord w label ("step " ++ toString step ++ ": suspended with " ++ w.display action)

def resumedRecord (w : World L) (label : Value) (step : Nat) (v : Value) : Mark :=
  textRecord w label ("step " ++ toString step ++ ": resumed with " ++ w.inspect v)

def completedRecord (w : World L) (label : Value) (steps : Nat) (result : Value) : Mark :=
  textRecord w label
    ("completed with " ++ w.inspect result ++ " after " ++ toString steps ++ " steps")

/-- What goes into the log before the computation goes on after so many suspensions. The first drive
takes no value. -/
def begins (label : Value) (d : Drive L S) : Nat → List Mark
  | 0 => [.driven .nil]
  | steps + 1 => [resumedRecord d.before label (steps + 1) d.turn.value, .driven d.turn.value]

/-- What goes into the log after that. -/
def ends (label : Value) (steps : Nat) (d : Drive L S) : List Mark :=
  match d.sight with
  | .ok (.suspended action) => [suspendedRecord d.after.1 label (steps + 1) action]
  | .ok (.completed result) => [completedRecord d.after.1 label steps result]
  | .error _ => []

def suspends : Sight → Bool
  | .ok (.suspended _) => true
  | _ => false

/-- The number of suspensions after a drive. There is none when the computation has ended. -/
def count (steps : Option Nat) (sight : Sight) : Option Nat :=
  if suspends sight then steps.map (· + 1) else none

def marks (label : Value) (d : Drive L S) : Option Nat → List Mark
  | some steps => begins label d steps ++ ends label steps d
  | none => []

/-- The log of a course. -/
def logOf (label : Value) : Option Nat → List (Drive L S) → List Mark
  | _, [] => []
  | steps, d :: ds => marks label d steps ++ logOf label (count steps d.sight) ds

def suspensions (ds : List (Drive L S)) : Nat :=
  ds.countP fun d => suspends d.sight

/-! ## The tracer -/

section

variable (host : Host (World L))

/-- The services with a log of the records beside the world. -/
def recording : Host ((World L × Life S) × List Mark) :=
  { host.beside.beside with
    note := fun n => Exec.modify fun p => (p.1, p.2 ++ [.record (p.1.1.eventOf n)]) }

/-- The computation with a log of its drives. -/
def driven (c : Source (World L × Life S)) : Source ((World L × Life S) × List Mark) := fun v => do
  Exec.modify fun p => (p.1, p.2 ++ [.driven v])
  c.beside v

/-- A tracer with a log beside the world. -/
def counted (label limit : Value) (c : Source (World L × Life S)) :
    Source (((World L × Life S) × List Mark) × Life Phase) :=
  Source.ofBody (recording host).mint (advance (recording host) label limit (driven c))

end

theorem driven_eq {c : Source (World L × Life S)} {v : Value} {p p' : World L × Life S}
    {sight : Sight} (drive : c v p = (.of sight, p')) (log : List Mark) :
    driven c v (p, log) = (.of sight, (p', log ++ [.driven v])) := by
  have modified : (Exec.modify fun q => (q.1, q.2 ++ [.driven v]) :
      Exec ((World L × Life S) × List Mark) Unit) (p, log) =
      (.ok (), (p, log ++ [.driven v])) := rfl
  rw [driven, Exec.bind_ok modified]
  exact Exec.beside_eq.mpr ⟨drive, rfl⟩

/-! ## Limits -/

/-- So many suspensions are within the limit. -/
def Within (limit : Value) (n : Nat) : Prop :=
  limit = .nil ∨ ∃ most, limit.number? = some most ∧ (n : Int) ≤ max most 0

/-- So many suspensions are all that the limit lets through. -/
def Exactly (limit : Value) (n : Nat) : Prop :=
  ∃ most, limit.number? = some most ∧ (n : Int) = max most 0

section

variable {W : Type} {host : Host W} {limit : Value} {steps : Nat}

theorem checkLimit_number {most : Int} (number : limit.number? = some most) (step : Nat) :
    checkLimit host limit step =
      if most < step then host.fail (.stepLimit limit) else pure () := by
  cases limit <;> cases number <;> rfl

theorem checkLimit_within (within : Within limit (steps + 1)) :
    checkLimit host limit (steps + 1) = pure () := by
  obtain rfl | ⟨most, number, le⟩ := within
  · rfl
  · rw [checkLimit_number number, if_neg]
    omega

theorem checkLimit_over (exactly : Exactly limit steps) :
    checkLimit host limit (steps + 1) = host.fail (.stepLimit limit) := by
  obtain ⟨most, number, eq⟩ := exactly
  rw [checkLimit_number number, if_pos]
  omega

end

/-! ## One drive -/

/-- Where a tracer is after so many suspensions of its computation, as long as that has not
ended. -/
inductive InStep : Life S → Life Phase → Option Nat → Prop where
  | fresh {s} : InStep (.fresh s) (.fresh .start) (some 0)
  | suspended {s steps} :
      InStep (.suspended s) (.suspended (.waiting (steps + 1))) (some (steps + 1))
  | finished : InStep .finished .finished none

theorem InStep.still {l : Life S} {m : Life Phase} {n : Option Nat} (h : InStep l m n) :
    l.isRunning = false := by
  cases h <;> rfl

theorem counted_entered {host : Host (World L)} {c : Source (World L × Life S)}
    {label limit v u : Value} {m : Life Phase} {phase : Phase} {o : Except Error (Move Phase)}
    {q q₁ q' : (World L × Life S) × List Mark} {sight : Sight}
    (entry : m.enters? v = some (phase, u))
    (run : advance (recording host) label limit (driven c) phase u q = (.of o, q₁))
    (sealed : Life.seal (recording host).mint o q₁ = (.of sight, q')) :
    counted host label limit c v (q, m) = (.of sight, (q', Life.left o)) :=
  Source.ofBody_eq.mpr (.entered entry run sealed)

section

variable {host : Host (World L)} {c : Source (World L × Life S)} {label limit : Value}
  {d : Drive L S} {l : Life S} {m : Life Phase} {steps : Nat}
  (lives : Source.Lives (fun _ => c) Prod.snd)
  (drive : c d.turn.value (d.before, l) = (.of d.sight, d.after))

include lives drive

variable (host label limit) in
theorem advance_begins (step : InStep l m (some steps)) :
    ∃ phase u, m.enters? d.turn.value = some (phase, u) ∧ ∀ log,
      ∃ begun : Exec ((World L × Life S) × List Mark) Step,
        begun ((d.before, l), log) = (.of d.sight, (d.after, log ++ begins label d steps)) ∧
        advance (recording host) label limit (driven c) phase u ((d.before, l), log) =
          (begun >>= pass (recording host) label limit steps) ((d.before, l), log) := by
  cases step with
  | fresh =>
    have first : c .nil (d.before, .fresh _) = (.of d.sight, d.after) :=
      (lives.first rfl 0 _).symm.trans drive
    exact ⟨.start, .nil, rfl, fun log => ⟨driven c .nil, driven_eq first log, rfl⟩⟩
  | @suspended s steps =>
    refine ⟨.waiting (steps + 1), d.turn.value, rfl, fun log => ⟨do
      (recording host).note (.traceResumed label (steps + 1) d.turn.value)
      driven c d.turn.value, ?_, ?_⟩⟩
    · refine (Exec.bind_ok rfl).trans ((driven_eq drive _).trans ?_)
      rw [List.append_assoc]
      rfl
    · rw [advance, bind_assoc]

variable (host label) in
theorem counted_drive {n : Option Nat} (step : InStep l m n)
    (within : ∀ steps, n = some steps → ∀ action, d.sight = .ok (.suspended action) →
      Within limit (steps + 1)) (log : List Mark) :
    ∃ m', counted host label limit c d.turn.value (((d.before, l), log), m) =
        (.of d.sight, ((d.after, log ++ marks label d n), m')) ∧
      InStep d.after.2 m' (count n d.sight) := by
  cases n with
  -- Nothing is counted any more, so the computation is over and its tracer as well.
  | none =>
    cases step
    have ended := lives.finished (p := (d.before, .finished)) rfl 0 d.turn.value
    obtain ⟨same, left⟩ := Prod.mk.inj (drive.symm.trans ended)
    rw [Result.of_inj (p := .ok _).mp same, left, marks, List.append_nil]
    exact ⟨.finished, rfl, .finished⟩
  | some steps =>
    have left := lives.left (p := (d.before, l)) step.still (ends_const.mpr drive)
    obtain ⟨phase, u, entry, begins⟩ := advance_begins host label limit lives drive step
    obtain ⟨begun, ran, advanced⟩ := begins log
    rw [marks, ← List.append_assoc]
    generalize log ++ Tracing.begins label d steps = log₁ at *
    obtain ⟨turn, before, sight, after⟩ := d
    rcases sight with e | action | result
    · obtain ⟨kind, left⟩ := left
      refine ⟨_, counted_entered entry (o := .error e) (advanced.trans (bind_raised ran))
        ((Life.seal_plain kind _ _).trans ?_), left ▸ .finished⟩
      rw [ends, List.append_nil]
      rfl
    · obtain ⟨next, left⟩ := left
      refine ⟨_, counted_entered entry (o := .ok (.suspend action (.waiting (steps + 1))))
        ((advanced.trans (bind_ok ran)).trans ?_) rfl, left ▸ .suspended⟩
      rw [pass, checkLimit_within (within steps rfl action rfl)]
      rfl
    · exact ⟨_, counted_entered entry (o := .ok (.complete result))
        (advanced.trans (bind_ok ran)) rfl, left ▸ .finished⟩

variable (label) in
theorem counted_over (mints : host.Mints) (step : InStep l m (some steps))
    (exactly : Exactly limit steps) {action : Value} (suspends : d.sight = .ok (.suspended action))
    (log : List Mark) :
    ∃ e w, host.mint (.stepLimit limit) d.after.1 = (.ok e, w) ∧ e.cause = .stepLimit limit ∧
      counted host label limit c d.turn.value (((d.before, l), log), m) =
        (.of (.error e), (((w, d.after.2), log ++ begins label d steps), .finished)) := by
  obtain ⟨e, w, minted, cause⟩ := mints (.stepLimit limit) d.after.1
  obtain ⟨phase, u, entry, begins⟩ := advance_begins host label limit lives drive step
  obtain ⟨begun, ran, advanced⟩ := begins log
  rw [suspends] at ran
  refine ⟨e, w, minted, cause, counted_entered entry (o := .error e)
    ((advanced.trans (bind_ok ran)).trans ?_) (Life.seal_plain ?_ _ _)⟩
  · rw [pass, checkLimit_over exactly]
    have made : (recording host).mint (.stepLimit limit)
        (d.after, log ++ Tracing.begins label d steps) =
        (.ok e, ((w, d.after.2), log ++ Tracing.begins label d steps)) :=
      Exec.beside_eq.mpr ⟨Exec.beside_eq.mpr ⟨minted, rfl⟩, rfl⟩
    exact bind_raised (bind_ok made)
  · simp [ErrorOf.kind, cause, Cause.kind]

end

/-! ## Whole runs -/

theorem Within.of_le {limit : Value} {n k : Nat} (h : Within limit n) (le : k ≤ n) :
    Within limit k := by
  obtain rfl | ⟨most, number, bound⟩ := h
  · exact .inl rfl
  · exact .inr ⟨most, number, by omega⟩

theorem Exactly.within {limit : Value} {n : Nat} (h : Exactly limit n) : Within limit n := by
  obtain ⟨most, number, eq⟩ := h
  exact .inr ⟨most, number, Int.le_of_eq eq⟩

theorem suspensions_cons (d : Drive L S) (ds : List (Drive L S)) :
    suspensions (d :: ds) = suspensions ds + if suspends d.sight then 1 else 0 :=
  List.countP_cons

theorem count_eq {n : Option Nat} {ds : List (Drive L S)} {k : Nat}
    (h : ds.foldl (fun n d => count n d.sight) n = some k) :
    ∃ j, n = some j ∧ k = j + suspensions ds := by
  induction ds generalizing n with
  | nil => exact ⟨k, h, rfl⟩
  | cons d ds ih =>
    obtain ⟨j, counted, rfl⟩ := ih h
    simp only [count] at counted
    split at counted
    · rename_i suspended
      obtain ⟨i, rfl, rfl⟩ := Option.map_eq_some_iff.mp counted
      refine ⟨i, rfl, ?_⟩
      rw [suspensions_cons, if_pos suspended]
      omega
    · cases counted

def onTraced (change : World L → World L)
    (q : ((World L × Life S) × List Mark) × Life Phase) :
    ((World L × Life S) × List Mark) × Life Phase :=
  ((onWorld change q.1.1, q.1.2), q.2)

section

variable {host : Host (World L)} {c : Source (World L × Life S)} {label limit : Value}

variable (host label) in
/-- The driver sees a course that stays within the limit as it is, and the log is that of the
course. Then the driver goes on from there. -/
theorem counted_course (lives : Source.Lives (fun _ => c) Prod.snd) {p p' : World L × Life S}
    {ds : List (Drive L S)} (course : Course c p ds p') {m : Life Phase} {n : Option Nat}
    (step : InStep p.2 m n) (within : ∀ k, n = some k → Within limit (k + suspensions ds))
    (log : List Mark) :
    ∃ m', InStep p'.2 m' (ds.foldl (fun n d => count n d.sight) n) ∧
      ∀ later seen q, takeTurns (fun _ => counted host label limit c) onTraced later
          ((p', log ++ logOf label n ds), m') = (.ok seen, q) →
        takeTurns (fun _ => counted host label limit c) onTraced (ds.map Drive.turn ++ later)
          ((p, log), m) = (.ok (ds.map Drive.sight ++ seen), q) := by
  induction course generalizing m n log with
  | nil => exact ⟨m, step, fun later seen q run => by rwa [logOf, List.append_nil] at run⟩
  | @cons w l turn sight p ds p' drive rest ih =>
    let d : Drive L S := ⟨turn, turn.change w, sight, p⟩
    have first (steps : Nat) (same : n = some steps) (action : Value)
        (suspended : d.sight = .ok (.suspended action)) : Within limit (steps + 1) := by
      refine (within steps same).of_le ?_
      have positive : suspends sight = true := congrArg suspends suspended
      rw [suspensions_cons, if_pos positive]
      omega
    have drive : c d.turn.value (d.before, l) = (.of d.sight, d.after) := drive
    obtain ⟨m₁, run, step₁⟩ := counted_drive host label lives drive step first log
    have others (k : Nat) (same : count n sight = some k) : Within limit (k + suspensions ds) := by
      have once : [d].foldl (fun n d => count n d.sight) n = some k := same
      obtain ⟨j, rfl, rfl⟩ := count_eq once
      refine (within j rfl).of_le (Nat.le_of_eq ?_)
      rw [Nat.add_assoc, suspensions, suspensions, ← List.countP_append]
      rfl
    obtain ⟨m', step', goes⟩ := ih step₁ others (log ++ marks label d n)
    refine ⟨m', step', fun later seen q ended => takeTurns_cons run (goes later seen q ?_)⟩
    rwa [List.append_assoc]

theorem counted_ended (p : World L × Life S) (log : List Mark) (later : List (Turn (World L))) :
    takeTurns (fun _ => counted host label limit c) onTraced later ((p, log), .finished) =
      (.ok (later.map fun _ => .ok (.completed .nil)),
        (((later.foldl (fun w t => t.change w) p.1, p.2), log), .finished)) := by
  induction later generalizing p with
  | nil => rfl
  | cons turn later ih =>
    have drive : counted host label limit c turn.value
          (onTraced turn.change ((p, log), .finished)) =
        (.of (.ok (.completed .nil)), ((onWorld turn.change p, log), .finished)) := rfl
    exact takeTurns_cons drive (ih _)

end

def knocking : Nat → Value → Exec (World ⟨Unit, Unit, Unit⟩) (Move Nat)
  | 2, v => pure (.complete v)
  | n, _ => pure (.suspend (.int n) (n + 1))

def doorway : World ⟨Unit, Unit, Unit⟩ := { memory := () }

def firstKnock : Drive ⟨Unit, Unit, Unit⟩ Nat :=
  ⟨⟨0, id, .nil⟩, doorway, .ok (.suspended (.int 0)), (doorway, .suspended 1)⟩

def secondKnock : Drive ⟨Unit, Unit, Unit⟩ Nat :=
  ⟨⟨0, id, .int 5⟩, doorway, .ok (.suspended (.int 1)), (doorway, .suspended 2)⟩

def doorHost : Host (World ⟨Unit, Unit, Unit⟩) :=
  World.host (fun _ _ => Exec.exhausted) fun _ _ => Exec.exhausted

end OneShot.Tracing
