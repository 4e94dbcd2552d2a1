import OneShot.Host
import OneShot.Proofs.Bounds

/-!
# Worlds side by side

What a run cannot reach stands beside its world. The run is the same there and leaves it alone.
-/

namespace OneShot

namespace Exec

variable {W X α β : Type}

/-- The run in a larger world. It neither sees nor changes what stands beside its own. -/
def beside (x : Exec W α) : Exec (W × X) α := fun p => ((x p.1).1, ((x p.1).2, p.2))

theorem beside_apply (x : Exec W α) (w : W) (s : X) :
    x.beside (w, s) = ((x w).1, ((x w).2, s)) := rfl

theorem beside_eq {x : Exec W α} {w w' : W} {s s' : X} {r : Result α} :
    x.beside (w, s) = (r, (w', s')) ↔ x w = (r, w') ∧ s' = s := by
  rw [beside_apply]
  rcases x w with ⟨r₁, w₁⟩
  simp [and_assoc, eq_comm]

@[simp] theorem beside_pure (a : α) : (pure a : Exec W α).beside = (pure a : Exec (W × X) α) := rfl

@[simp] theorem beside_raise (e : Error) :
    (raise e : Exec W α).beside = (raise e : Exec (W × X) α) := rfl

@[simp] theorem beside_bind (x : Exec W α) (f : α → Exec W β) :
    (x >>= f).beside = (x.beside >>= fun a => (f a).beside : Exec (W × X) β) := by
  funext ⟨w, s⟩
  simp only [Bind.bind, Exec.bind, beside_apply]
  rcases x w with ⟨r, w₁⟩
  cases r <;> rfl

@[simp] theorem beside_map (g : α → β) (x : Exec W α) :
    (g <$> x).beside = (g <$> x.beside : Exec (W × X) β) := by
  simp only [map_eq_pure_bind, beside_bind, beside_pure]

/-- A run in the part of the world that a cell holds. -/
def within (cell : Cell W X) (x : Exec X α) : Exec W α := fun w =>
  ((x (cell.get w)).1, cell.set (x (cell.get w)).2 w)

theorem within_eq {cell : Cell W X} {x : Exec X α} {w w' : W} {r : Result α} :
    within cell x w = (r, w') ↔ ∃ s, x (cell.get w) = (r, s) ∧ w' = cell.set s w := by
  rcases h : x (cell.get w) with ⟨r₁, s⟩
  simp only [within, h, Prod.mk.injEq]
  constructor
  · rintro ⟨rfl, rfl⟩
    exact ⟨s, ⟨rfl, rfl⟩, rfl⟩
  · rintro ⟨_, ⟨rfl, rfl⟩, rfl⟩
    exact ⟨rfl, rfl⟩

theorem Growing.within {cell : Cell W X} {x : Nat → Exec X α} (hx : Growing x) :
    Growing fun b => within cell (x b) := by
  intro b b' w o w' hb h
  rw [within_eq] at h ⊢
  obtain ⟨s, h, rfl⟩ := h
  exact ⟨s, hx hb h, rfl⟩

theorem ends_within {cell : Cell W X} {x : Nat → Exec X α} {w w' : W} {o : Except Error α} :
    Ends (fun b => within cell (x b)) w o w' ↔
      ∃ s, Ends x (cell.get w) o s ∧ w' = cell.set s w := by
  simp only [Ends, within_eq]
  constructor
  · rintro ⟨b, s, h, rfl⟩
    exact ⟨s, ⟨b, h⟩, rfl⟩
  · rintro ⟨s, ⟨b, h⟩, rfl⟩
    exact ⟨b, s, h, rfl⟩

end Exec

namespace Host

variable {W X : Type}

/-- The services in a larger world. -/
def beside (host : Host W) : Host (W × X) where
  drive computation v := (host.drive computation v).beside
  call f arguments := (host.call f arguments).beside
  issue action := (host.issue action).beside
  outcome token := (host.outcome token).beside
  settle tactics o := (host.settle tactics o).beside
  note n := (host.note n).beside
  mint cause := (host.mint cause).beside

@[simp] theorem beside_drive (host : Host W) (n : Nat) (v : Value) :
    (host.beside : Host (W × X)).drive n v = (host.drive n v).beside := rfl

@[simp] theorem beside_call (host : Host W) (f : Value) (arguments : List Value) :
    (host.beside : Host (W × X)).call f arguments = (host.call f arguments).beside := rfl

@[simp] theorem beside_issue (host : Host W) (action : Value) :
    (host.beside : Host (W × X)).issue action = (host.issue action).beside := rfl

@[simp] theorem beside_outcome (host : Host W) (token : Nat) :
    (host.beside : Host (W × X)).outcome token = (host.outcome token).beside := rfl

@[simp] theorem beside_note (host : Host W) (n : Note) :
    (host.beside : Host (W × X)).note n = (host.note n).beside := rfl

@[simp] theorem beside_mint (host : Host W) (cause : Cause Value) :
    (host.beside : Host (W × X)).mint cause = (host.mint cause).beside := rfl

/-- The services without the log: records are dropped. -/
def quiet (host : Host W) : Host W := { host with note := fun _ => pure () }

/-- A call of an entry. -/
structure Call where
  entry : Value
  arguments : List Value

/-- The services in a world that keeps a list of the calls beside it, in their order. -/
def recorded (host : Host W) : Host (W × List Call) :=
  { host.beside with
    call := fun f arguments => do
      Exec.modify fun p => (p.1, p.2 ++ [⟨f, arguments⟩])
      host.beside.call f arguments }

/-- An error is made for any cause, and making it does not fail. -/
def Mints (host : Host W) : Prop :=
  ∀ cause w, ∃ e w', host.mint cause w = (.ok e, w') ∧ e.cause = cause

theorem Mints.quiet {host : Host W} (mints : host.Mints) : host.quiet.Mints := mints

theorem Mints.recorded {host : Host W} (mints : host.Mints) : host.recorded.Mints := by
  rintro cause ⟨w, calls⟩
  obtain ⟨e, w', h, hcause⟩ := mints cause w
  exact ⟨e, (w', calls), Exec.beside_eq.mpr ⟨h, rfl⟩, hcause⟩

/-- Services in a small world: the decision of its only token. A call resumes with the number of its
arguments and returns a computation, which yields a value and completes when it is driven again. -/
def small (yielded : Value) : Host (Option Outcome) where
  drive _ v :=
    match v with
    | .nil => pure (.suspended yielded)
    | _ => pure (.completed .nil)
  call _ arguments := do
    Exec.modify fun _ => some (.resume (.int arguments.length))
    return .computation 0
  issue _ := do
    Exec.modify fun _ => none
    return 0
  outcome _ := Exec.read id
  settle _ o := Exec.modify fun _ => some o
  note _ := pure ()
  mint cause := pure ⟨0, cause, none⟩

theorem mints_small (yielded : Value) : (small yielded).Mints :=
  fun cause w => ⟨⟨0, cause, none⟩, w, rfl, rfl⟩

end Host

end OneShot
