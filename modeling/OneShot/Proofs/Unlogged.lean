import OneShot.Proofs.Unwinding

/-!
# The log changes nothing

What is said about a stack is said with the help of its log. Nothing in the stack depends on that: a
driver sees the same without it, and the world and the lives become the same.
-/

namespace OneShot

open Protocol Exec
open Dispatch (Phase handling)

variable {W : Type}

/-- The same world, without a log. -/
def Unlogged (p : W × Log W) (w : W) : Prop := p.1 = w

theorem Exec.alike_unlogged {α : Type} (x : Exec W α) (act : W → Result α → W → Act)
    (place : Nat) : Alike Unlogged ((x.logged act).placed place) x := by
  rintro p _ rfl
  exact ⟨rfl, rfl⟩

theorem Host.alike_unlogged (host : Host W) (tokens : W → Nat → Option Token) (place : Nat) :
    Host.Alike Unlogged ((host.logged tokens).placed place) host where
  drive n v := (host.drive n v).alike_unlogged _ place
  call f arguments := (host.call f arguments).alike_unlogged _ place
  issue action := (host.issue action).alike_unlogged _ place
  outcome token := (host.outcome token).alike_unlogged _ place
  note n := by
    rintro p _ rfl
    exact ⟨rfl, rfl⟩
  mint cause := (host.mint cause).alike_unlogged _ place

/-- A stack without its log. -/
abbrev Bare (W : Type) := (W × Life Phase) × (Nat → Life Shell)

namespace Bare

def change (f : W → W) (p : Bare W) : Bare W := ((f p.1.1, p.1.2), p.2)

/-- The computations of a stack that keeps no log. -/
def stack (host : Host W) (table : Table) (c : Source W) (bound : Nat) : Nat → Source (Bare W) :=
  level (fun _ source => source) (fun _ => host.beside.beside) Cell.nth
    (handling host table c bound).beside bound

end Bare

namespace Stacked

def bare (p : Stacked W) : Bare W := ((p.1.1.1, p.1.2), p.2)

abbrev Tells (p : Stacked W) (q : Bare W) : Prop := Alongside (Alongside Unlogged) p q

theorem tells_bare {p : Stacked W} {q : Bare W} : Tells p q ↔ p.bare = q := by
  constructor
  · rintro ⟨⟨hw, hl⟩, hlives⟩
    exact Prod.ext (Prod.ext hw hl) hlives
  · rintro rfl
    exact ⟨⟨rfl, rfl⟩, rfl⟩

theorem Tells.change {p : Stacked W} {q : Bare W} (h : Tells p q) (f : W → W) :
    Tells (p.change f) (q.change f) := ⟨⟨congrArg f h.1.1, h.1.2⟩, h.2⟩

end Stacked

open Stacked

theorem alike_witnessed {place : Nat} {source : Source (Stacked W)} {source' : Source (Bare W)}
    (alike : ∀ v, Exec.Alike Tells (source v) (source' v)) (v : Value) :
    Exec.Alike Tells (witnessed place source v) (source' v) := by
  intro p q h
  obtain ⟨hresult, hleft⟩ := alike v (p.mark place (.sent v)) q h
  rcases hp : source v (p.mark place (.sent v)) with ⟨r, p₁⟩
  rw [hp] at hresult hleft
  rw [← hresult]
  have ended (sight : Sight) (hr : r = .of sight) :
      (witnessed place source v p).1 = r ∧
        Tells (witnessed place source v p).2 (source' v q).2 := by
    subst hr
    rw [witnessed_of hp]
    exact ⟨rfl, hleft⟩
  cases r with
  | ok step => exact ended (.ok step) rfl
  | raised e => exact ended (.error e) rfl
  | exhausted =>
    rw [witnessed_exhausted hp]
    exact ⟨rfl, hleft⟩

theorem alike_stack (host : Host W) (tokens : W → Nat → Option Token) (table : Table)
    (c : Source W) (bound place : Nat) (v : Value) :
    Exec.Alike Tells (stack host tokens table c bound place v)
      (Bare.stack host table c bound place v) := by
  refine alike_level (fun _ => alike_witnessed) (fun place => ?_) Cell.alike_nth ?_ bound place v
  · exact (host.alike_unlogged tokens place).beside.beside
  · intro v
    have sources (v : Value) : Exec.Alike Unlogged (c.logged.placed 0 v) (c v) :=
      (c v).alike_unlogged _ 0
    exact (Dispatch.alike_handling (host.alike_unlogged tokens 0) sources table bound v).beside

/-- A session sees the same with the log and without it, and leaves the same. -/
theorem takeTurns_unlogged (host : Host W) (tokens : W → Nat → Option Token) (table : Table)
    (c : Source W) (bound : Nat) (turns : List (Turn W)) {p q : Stacked W}
    {r : Result (List Sight)}
    (run : takeTurns (stack host tokens table c bound) Stacked.change turns p = (r, q)) :
    takeTurns (Bare.stack host table c bound) Bare.change turns p.bare = (r, q.bare) := by
  have alike : Exec.Alike Tells (takeTurns (stack host tokens table c bound) Stacked.change turns)
      (takeTurns (Bare.stack host table c bound) Bare.change turns) :=
    alike_takeTurns (alike_stack host tokens table c bound) (fun f _ _ h => h.change f) turns
  obtain ⟨hresult, hleft⟩ := alike p p.bare (tells_bare.mpr rfl)
  rw [run] at hresult hleft
  exact Prod.ext hresult.symm (tells_bare.mp hleft).symm

end OneShot
