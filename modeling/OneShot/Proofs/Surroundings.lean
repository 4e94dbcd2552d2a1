import OneShot.Kernel
import OneShot.Proofs.Matching

/-!
# What stands around a computation

Two worlds can differ in something that no service of a world looks at. Then the services match, and
a computation matches too if the drives, the calls and the user code around it do.
-/

namespace OneShot.World

open Exec (Matches matches_pure matches_raise matches_read matches_modify matches_alter)

variable {L : Language} {R : World L → World L → Prop} {E : Error → Error → Prop}

/-- No service of a world tells the difference between related worlds, and each one keeps them
related. -/
structure Unnoticed (R : World L → World L → Prop) (E : Error → Error → Prop) : Prop where
  nextId : ∀ {w w'}, R w w' → w.nextId = w'.nextId
  tokens : ∀ {w w'}, R w w' → w.tokens = w'.tokens
  effects : ∀ {w w'}, R w w' → w.effects = w'.effects
  found : ∀ {w w'}, R w w' → ∀ v name, w.attribute? v name = w'.attribute? v name
  missing : ∀ {w w'}, R w w' → ∀ v name, w.missingAttribute v name = w'.missingAttribute v name
  setIds : ∀ {w w'}, R w w' → ∀ nextId, R { w with nextId } { w' with nextId }
  setTokens : ∀ {w w'}, R w w' → ∀ tokens, R { w with tokens } { w' with tokens }
  setEffects : ∀ {w w'}, R w w' → ∀ effects, R { w with effects } { w' with effects }
  note : ∀ n, Matches R E Eq (note n) (note n)
  mint : ∀ cause, Matches R E E (mint cause) (mint cause)

namespace Unnoticed

variable (unnoticed : Unnoticed R E)

include unnoticed

theorem takeIds (count : Nat) :
    Matches R E Eq (Exec.alter (takeIds count)) (Exec.alter (World.takeIds count)) :=
  matches_alter fun w w' h => by
    have same := unnoticed.nextId h
    exact ⟨same, by simpa only [World.takeIds, same] using unnoticed.setIds h _⟩

theorem newTuple (items : List Value) :
    Matches R E Eq (newTuple items) (World.newTuple items) :=
  matches_alter fun w w' h => by
    have same := unnoticed.nextId h
    refine ⟨congrArg (Value.tuple · items) same, ?_⟩
    simpa only [addObject, World.takeIds, same] using unnoticed.setIds h _

theorem issue (action : Value) : Matches R E Eq (issue action) (World.issue action) :=
  matches_alter fun w w' h => by
    simp only [addToken, unnoticed.tokens h, unnoticed.nextId h]
    let tokens := (w'.tokens.add (.pending action w'.nextId)).2
    exact ⟨trivial, unnoticed.setIds (unnoticed.setTokens h tokens) (w'.nextId + 1)⟩

theorem outcome (token : Nat) : Matches R E Eq (outcome token) (World.outcome token) :=
  matches_read fun _ _ h => by rw [unnoticed.tokens h]

theorem fail {α : Type} (cause : Cause Value) :
    Matches R E Eq (fail cause : Exec (World L) α) (World.fail cause) :=
  (unnoticed.mint cause).bind fun _ _ => matches_raise

theorem refuse {α : Type} (refusal : Refusal) :
    Matches R E Eq (refuse refusal : Exec (World L) α) (World.refuse refusal) := unnoticed.fail _

theorem ofExcept {α : Type} (o : Except (Cause Value) α) :
    Matches R E Eq (ofExcept o : Exec (World L) α) (World.ofExcept o) := by
  cases o with
  | ok a => exact matches_pure rfl
  | error cause => exact unnoticed.fail cause

theorem readEffect (id : Nat) : Matches R E Eq (Exec.read fun w => w.effects.get? id)
    (Exec.read fun w => w.effects.get? id) :=
  matches_read fun _ _ h => by rw [unnoticed.effects h]

theorem creatorFrom (id : Nat)
    (ask : Namespace → Nat → Except (Cause Value) (Value × Namespace)) :
    Matches R E Eq (creatorFrom id ask) (World.creatorFrom id ask) := by
  refine (unnoticed.readEffect id).next fun n => ?_
  cases n with
  | none => exact unnoticed.refuse _
  | some n =>
    refine (unnoticed.takeIds 1).next fun next => (unnoticed.ofExcept _).next fun asked => ?_
    have keeps : Matches R E Eq (Exec.modify (setEffect id asked.2))
        (Exec.modify (setEffect id asked.2)) := matches_modify fun w w' h => by
      simpa only [setEffect, unnoticed.effects h] using unnoticed.setEffects h _
    exact keeps.next fun _ => matches_pure rfl

theorem effectAttribute (id : Nat) (name : String) :
    Matches R E Eq (effectAttribute id name) (World.effectAttribute id name) := by
  refine (unnoticed.readEffect id).next fun n => ?_
  cases n with
  | none => exact unnoticed.refuse _
  | some n =>
    dsimp only
    split
    · exact matches_pure rfl
    · exact unnoticed.newTuple _
    · exact matches_pure rfl
    · exact matches_pure rfl
    · exact unnoticed.creatorFrom id _

theorem access (v : Value) (name : String) :
    Matches R E Eq (access v name) (World.access v name) := by
  unfold World.access
  split
  · exact unnoticed.effectAttribute _ _
  · exact unnoticed.newTuple _
  · exact unnoticed.newTuple _
  · have found : Matches R E Eq (Exec.read fun w => w.attribute? v name)
        (Exec.read fun w => w.attribute? v name) := matches_read fun _ _ h => unnoticed.found h _ _
    have missing : Matches R E Eq (Exec.read fun w => w.missingAttribute v name)
        (Exec.read fun w => w.missingAttribute v name) :=
      matches_read fun _ _ h => unnoticed.missing h _ _
    refine found.next fun found => ?_
    cases found with
    | some found => exact matches_pure rfl
    | none => exact missing.next fun _ => unnoticed.refuse _

end Unnoticed

/-- What stands around a computation: the user code, and what drives and calls do. -/
structure Surroundings (L : Language) where
  program : Program L
  drive : Nat → Value → Exec (World L) Step
  call : Value → List Value → Exec (World L) Value

namespace Surroundings

def host (s : Surroundings L) : Host (World L) := World.host s.drive s.call

/-- The computations of the world. Each is driven by its identity. -/
def computation (s : Surroundings L) (bound n : Nat) : Source (World L) :=
  Life.drive mint (lifeCell n) (moveBody s.program s.host bound)

/-- Drives, calls and user code do the same in related worlds. -/
structure Alike (R : World L → World L → Prop) (E : Error → Error → Prop) (bound : Nat)
    (s s' : Surroundings L) : Prop where
  drive : ∀ n v, Matches R E Eq (s.drive n v) (s'.drive n v)
  call : ∀ f arguments, Matches R E Eq (s.call f arguments) (s'.call f arguments)
  task : ∀ state v, Matches R E Eq (s.program.advance s.host bound state v)
    (s'.program.advance s'.host bound state v)

namespace Alike

variable {s s' : Surroundings L} {bound : Nat} (alike : Alike R E bound s s')
  (unnoticed : Unnoticed R E)

include alike unnoticed

theorem services : s.host.Matches R E s'.host where
  drive := alike.drive
  call := alike.call
  issue := unnoticed.issue
  outcome := unnoticed.outcome
  note := unnoticed.note
  mint := unnoticed.mint

theorem settle (tactics : Value) (o : Outcome) :
    Matches R E Eq (s.host.settle tactics o) (s'.host.settle tactics o) :=
  ((unnoticed.access tactics o.methodName).next fun method => alike.call method [o.value]).next
    fun _ => matches_pure rfl

theorem moveBody (body : Body L) (v : Value) :
    Matches R E Eq (moveBody s.program s.host bound body v)
      (World.moveBody s'.program s'.host bound body v) := by
  have services := alike.services unnoticed
  cases body with
  | task state => exact (alike.task state v).next fun _ => matches_pure rfl
  | pure result => exact matches_pure rfl
  | perform action asked => cases asked <;> exact matches_pure rfl
  | handling source table phase =>
    exact (Dispatch.matches_advance services (alike.drive source) table bound phase v).next
      fun _ => matches_pure rfl
  | tracing source label limit phase =>
    exact (Tracing.matches_advance services (alike.drive source) label limit phase v).next
      fun _ => matches_pure rfl
  | askOuter question tactics asked =>
    refine Matches.next ?_ fun _ => matches_pure rfl
    cases asked with
    | false => exact matches_pure rfl
    | true => exact (alike.settle unnoticed tactics (.resume v)).next fun _ => matches_pure rfl

theorem computation (kinds : ∀ {e e'}, E e e' → e.kind = e'.kind) {n : Nat}
    (cells : Cell.Alike R (lifeCell n : Cell (World L) (Life (Body L))) (lifeCell n)) (v : Value) :
    Matches R E Eq (s.computation bound n v) (s'.computation bound n v) :=
  Life.matches_drive kinds unnoticed.mint (alike.moveBody unnoticed) cells v

end Alike

end Surroundings

end OneShot.World
