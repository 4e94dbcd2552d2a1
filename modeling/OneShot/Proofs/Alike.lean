import OneShot.Proofs.Matching

/-!
# Runs that are alike

Two runs are alike if from related worlds they end in the same way and leave related worlds. The
dispatch loop and a tracer are alike over services and sources that are. A run that is like itself
where a world is related to itself by a property keeps that property.
-/

namespace OneShot

namespace Exec

variable {V U α β : Type} {R : V → U → Prop}

def Alike (R : V → U → Prop) (x : Exec V α) (y : Exec U α) : Prop :=
  ∀ p q, R p q → (x p).1 = (y q).1 ∧ R (x p).2 (y q).2

theorem alike_iff {x : Exec V α} {y : Exec U α} : Alike R x y ↔ Matches R Eq Eq x y := by
  simp only [Alike, Matches, Result.matches_eq]

theorem alike_pure (a : α) : Alike R (pure a) (pure a) := fun _ _ h => ⟨rfl, h⟩

theorem alike_raise (e : Error) : Alike R (raise e : Exec V α) (raise e) := fun _ _ h => ⟨rfl, h⟩

theorem alike_exhausted : Alike R (exhausted : Exec V α) exhausted := fun _ _ h => ⟨rfl, h⟩

theorem Alike.bind {x : Exec V α} {y : Exec U α} {f : α → Exec V β} {g : α → Exec U β}
    (hx : Alike R x y) (hf : ∀ a, Alike R (f a) (g a)) : Alike R (x >>= f) (y >>= g) :=
  alike_iff.mpr ((alike_iff.mp hx).next fun a => alike_iff.mp (hf a))

theorem alike_modify {f : V → V} {g : U → U} (h : ∀ p q, R p q → R (f p) (g q)) :
    Alike R (modify f) (modify g) := fun p q hpq => ⟨rfl, h p q hpq⟩

theorem alike_read {f : V → α} {g : U → α} (h : ∀ p q, R p q → f p = g q) :
    Alike R (read f) (read g) := fun p q hpq => ⟨congrArg Result.ok (h p q hpq), hpq⟩

theorem Alike.rescue {x : Exec V α} {y : Exec U α} {f : Error → Exec V α} {g : Error → Exec U α}
    (hx : Alike R x y) (hf : ∀ e, Alike R (f e) (g e)) : Alike R (x.rescue f) (y.rescue g) :=
  alike_iff.mpr ((alike_iff.mp hx).rescue fun e _ h => h ▸ alike_iff.mp (hf e))

theorem Alike.look {x : Exec V Step} {y : Exec U Step} (hx : Alike R x y) :
    Alike R x.look y.look := (hx.bind fun _ => alike_pure _).rescue fun _ => alike_pure _

/-- Related worlds, with the same beside them. -/
abbrev Alongside {X : Type} (R : V → U → Prop) (p : V × X) (q : U × X) : Prop :=
  R p.1 q.1 ∧ p.2 = q.2

theorem Alike.beside {X : Type} {x : Exec V α} {y : Exec U α} (hx : Alike R x y) :
    Alike (Alongside R) (x.beside : Exec (V × X) α) y.beside := fun _ _ h =>
  ⟨(hx _ _ h.1).1, (hx _ _ h.1).2, h.2⟩

/-- Whatever the run does, the property of the world stays. -/
def Keeps (I : V → Prop) (x : Exec V α) : Prop := ∀ p, I p → I (x p).2

theorem keeps_iff_alike {I : V → Prop} {x : Exec V α} :
    Keeps I x ↔ Alike (fun p q => p = q ∧ I p) x x := by
  constructor
  · rintro h p _ ⟨rfl, hp⟩
    exact ⟨rfl, rfl, h p hp⟩
  · intro h p hp
    exact (h p p ⟨rfl, hp⟩).2.2

end Exec

open Exec

variable {V U : Type} {R : V → U → Prop}

/-- The services of two worlds are alike. -/
structure Host.Alike (R : V → U → Prop) (host : Host V) (host' : Host U) : Prop where
  drive : ∀ n v, Exec.Alike R (host.drive n v) (host'.drive n v)
  call : ∀ f arguments, Exec.Alike R (host.call f arguments) (host'.call f arguments)
  issue : ∀ action, Exec.Alike R (host.issue action) (host'.issue action)
  outcome : ∀ token, Exec.Alike R (host.outcome token) (host'.outcome token)
  note : ∀ n, Exec.Alike R (host.note n) (host'.note n)
  mint : ∀ cause, Exec.Alike R (host.mint cause) (host'.mint cause)

theorem Host.Alike.beside {X : Type} {host : Host V} {host' : Host U} (alike : host.Alike R host') :
    Host.Alike (Alongside R) (host.beside : Host (V × X)) host'.beside where
  drive n v := (alike.drive n v).beside
  call f arguments := (alike.call f arguments).beside
  issue action := (alike.issue action).beside
  outcome token := (alike.outcome token).beside
  note n := (alike.note n).beside
  mint cause := (alike.mint cause).beside

theorem Host.Alike.matched {host : Host V} {host' : Host U} (alike : host.Alike R host') :
    host.Matches R Eq host' where
  drive n v := alike_iff.mp (alike.drive n v)
  call f arguments := alike_iff.mp (alike.call f arguments)
  issue action := alike_iff.mp (alike.issue action)
  outcome token := alike_iff.mp (alike.outcome token)
  note n := alike_iff.mp (alike.note n)
  mint cause := alike_iff.mp (alike.mint cause)

/-! ## Lives -/

theorem Cell.alike_second {X : Type} : Cell.Alike (Alongside R) (second (X := X)) second :=
  ⟨fun _ _ h => h.2, fun _ _ _ h => ⟨h.1, rfl⟩⟩

section

variable {S : Type} {mint : Cause Value → Exec V Error} {mint' : Cause Value → Exec U Error}
  {body : S → Value → Exec V (Move S)} {body' : S → Value → Exec U (Move S)}
  (mints : ∀ cause, Exec.Alike R (mint cause) (mint' cause))
  (bodies : ∀ s v, Exec.Alike R (body s v) (body' s v))

include mints bodies

theorem Life.alike_drive {cell : Cell V (Life S)} {cell' : Cell U (Life S)}
    (cells : Cell.Alike R cell cell') (v : Value) :
    Exec.Alike R (drive mint cell body v) (drive mint' cell' body' v) :=
  alike_iff.mpr (matches_drive (congrArg ErrorOf.kind) (fun cause => alike_iff.mp (mints cause))
    (fun s v => alike_iff.mp (bodies s v)) cells v)

theorem Source.alike_ofBody (v : Value) :
    Exec.Alike (Alongside R) (ofBody mint body v) (ofBody mint' body' v) :=
  Life.alike_drive (fun cause => (mints cause).beside) (fun s v => (bodies s v).beside)
    Cell.alike_second v

end

/-! ## The dispatch loop and the tracer -/

namespace Dispatch

variable {host : Host V} {host' : Host U} (alike : host.Alike R host')

include alike

theorem alike_react (table : Table) (step : Step) :
    Exec.Alike R (react host table step) (react host' table step) :=
  alike_iff.mpr (matches_react alike.matched table step)

theorem alike_takeUp (phase : Phase) (v : Value) :
    Exec.Alike R (takeUp host phase v) (takeUp host' phase v) :=
  alike_iff.mpr (matches_takeUp alike.matched phase v)

variable {source : Source V} {source' : Source U}
  (alike' : ∀ v, Exec.Alike R (source v) (source' v))

include alike'

theorem alike_advance (table : Table) (bound : Nat) (phase : Phase) (v : Value) :
    Exec.Alike R (advance host table source bound phase v)
      (advance host' table source' bound phase v) :=
  alike_iff.mpr
    (matches_advance alike.matched (fun v => alike_iff.mp (alike' v)) table bound phase v)

theorem alike_handling (table : Table) (bound : Nat) (v : Value) :
    Exec.Alike (Alongside R) (handling host table source bound v)
      (handling host' table source' bound v) :=
  Source.alike_ofBody alike.mint (alike_advance alike alike' table bound) v

end Dispatch

namespace Tracing

variable {host : Host V} {host' : Host U} (alike : host.Alike R host')

include alike

theorem alike_pass (label limit : Value) (steps : Nat) (step : Step) :
    Exec.Alike R (pass host label limit steps step) (pass host' label limit steps step) :=
  alike_iff.mpr (matches_pass alike.matched label limit steps step)

theorem alike_advance {source : Source V} {source' : Source U}
    (alike' : ∀ v, Exec.Alike R (source v) (source' v)) (label limit : Value) (phase : Phase)
    (v : Value) : Exec.Alike R (advance host label limit source phase v)
      (advance host' label limit source' phase v) :=
  alike_iff.mpr
    (matches_advance alike.matched (fun v => alike_iff.mp (alike' v)) label limit phase v)

end Tracing

end OneShot
