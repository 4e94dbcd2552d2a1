import OneShot.World

/-!
# Holding

What keeps a computation from being given up. An evaluation in progress holds the values that it
has so far, and an error that ends the evaluation keeps them. What has been handed on as a value,
into data or from one place to another, is held from then on, because somebody may have it still.
So only what has never been more than a source or a passing value is given up.
-/

namespace OneShot.World

variable {L : Language}

/-- Notes that a value has been handed on. -/
def keep (v : Value) (w : World L) : World L :=
  match v with
  | .computation id =>
    match w.computations.get? id with
    | some c =>
      if c.kept then w
      else { w with computations := w.computations.set id { c with kept := true } }
    | none => w
  | .error _ | .report _ => { w with stored := v :: w.stored }
  | _ => w

def keepAll (vs : List Value) (w : World L) : World L := vs.foldl (fun w v => w.keep v) w

/-- The source of a computation. -/
def source? (w : World L) (id : Nat) : Option Nat :=
  ((lifeCell id).get w).body?.bind Body.source?

/-- Whether a computation has another one as its source, directly or through those in between. A
source has been made before what drives it, so the identity bounds the way. -/
def wraps (w : World L) : (depth : Nat) → (outer inner : Nat) → Bool
  | 0, _, _ => false
  | depth + 1, outer, inner =>
    match w.source? outer with
    | some source => source = inner || w.wraps depth source inner
    | none => false

/-- Notes that a value takes the place of another one in a variable. A wrapper of the other one
takes it over as its source. Any other value leaves it to those that it has been handed on to. -/
def supersede (old new : Value) (w : World L) : World L :=
  match old, new with
  | .computation inner, .computation outer =>
    if w.wraps outer outer inner then w else w.keep old
  | _, _ => w.keep old

/-- Notes that a call has caught an error. The error keeps the callers up to the innermost drive,
so the source of that one is held. -/
def keepCallers (w : World L) : World L :=
  match w.drives.head?.bind w.source? with
  | some source => w.keep (.computation source)
  | none => w

/-- Whether a computation is held wherever it is: it is running or has been handed on. -/
def isRoot (w : World L) (id : Nat) : Bool :=
  (w.computations.get? id).any fun c => c.kept || c.life.isRunning

/-- Whether a value can lead to a computation. -/
def leadsOn : Value → Bool
  | .nil | .bool _ | .int _ | .str _ => false
  | _ => true

/-- Runs `x` for an evaluation that has the values `vs` so far. -/
def holding {α : Type} (vs : List Value) (x : Exec (World L) α) : Exec (World L) α :=
  match vs.filter leadsOn with
  | [] => x
  | vs => do
    let before ← Exec.read fun w => w.pending
    Exec.modify fun w => { w with pending := vs ++ before }
    let ended ← x.attempt
    Exec.modify fun w => { w with pending := before }
    match ended with
    | .ok a => return a
    | .raised e =>
      Exec.modify fun w => { w with carried := w.carried.add e.id vs }
      Exec.raise e
    | .exhausted => Exec.exhausted

end OneShot.World
