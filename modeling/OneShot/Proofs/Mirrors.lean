import Mathlib.Data.List.Forall2
import OneShot.Proofs.Matching
import OneShot.TopLevel

/-!
# Handlings that mirror each other

What stands beside a world is mirrored as well: the life of a loop, and the list of its calls. So a
driver sees related things of two loops, and they call the same.
-/

namespace OneShot

open Exec

variable {V U X Y : Type} {R : V → U → Prop} {E : Error → Error → Prop} {N : Value → Value → Prop}
  {F : Value → Prop}

/-- Related worlds, with related things beside them. -/
abbrev Beside (R : V → U → Prop) (Q : X → Y → Prop) (p : V × X) (q : U × Y) : Prop :=
  R p.1 q.1 ∧ Q p.2 q.2

theorem Exec.Matches.beside {α β : Type} {A : α → β → Prop} {x : Exec V α} {y : Exec U β}
    (h : Matches R E A x y) (Q : X → Y → Prop) : Matches (Beside R Q) E A x.beside y.beside :=
  fun p q hpq => ⟨(h p.1 q.1 hpq.1).1, (h p.1 q.1 hpq.1).2, hpq.2⟩

section

variable {host : Host V} {host' : Host U} (services : host.Mirrors R E N F host')

include services

theorem Host.Mirrors.beside (Q : X → Y → Prop) :
    Host.Mirrors (Beside R Q) E N F host.beside host'.beside where
  drive n v := (services.drive n v).beside Q
  call f arguments known := (services.call f arguments known).beside Q
  issue h := (services.issue h).beside Q
  outcome t := (services.outcome t).beside Q
  note h := (services.note h).beside Q
  mint h := (services.mint h).beside Q

theorem Host.Mirrors.recorded : Host.Mirrors (Beside R Eq) E N F host.recorded host'.recorded :=
  { services.beside Eq with
    call := by
      intro f arguments known
      refine Matches.next (matches_modify fun p q h => ⟨h.1, ?_⟩) fun _ =>
        (services.call f arguments known).beside Eq
      exact congrArg (· ++ [_]) h.2 }

theorem TopLevel.mirrors_finish {source : Source V} {source' : Source U}
    (sources : ∀ v, Matches R E (Step.Mirrors N) (source v) (source' v)) :
    Matches R E Eq (finish host source) (finish host' source') := by
  refine (sources .nil).bind fun step step' h => ?_
  cases h with
  | suspended h => exact Dispatch.mirrors_fail services (.unhandled h)
  | completed => exact matches_pure rfl

variable (kinds : ∀ {e e'}, E e e' → e.kind = e'.kind) {t t' : Table} (tables : t.Mirrors N F t')
  {source : Source V} {source' : Source U}
  (sources : ∀ v, Matches R E (Step.Mirrors N) (source v) (source' v))

include kinds tables sources

theorem Dispatch.mirrors_handling (bound : Nat) (v : Value) :
    Matches (Beside R (Life.Mirrors (Phase.Mirrors N))) E (Step.Mirrors N)
      (handling host t source bound v) (handling host' t' source' bound v) := by
  have cells : Cell.Mirrors (Beside R (Life.Mirrors (Phase.Mirrors N))) (Phase.Mirrors N)
      Cell.second Cell.second := ⟨fun p q h => h.2, fun p q lives h => ⟨h.1, lives⟩⟩
  refine Life.mirrors_drive kinds (fun _ => (services.mint .refused).beside _) ?_ cells v
  intro s s' v states
  exact (mirrors_advance services tables sources bound states v).beside _

end

/-- Sources that mirror each other show a driver related things. -/
theorem mirrors_session {source : Source V} {source' : Source U}
    (sources : ∀ v, Matches R E (Step.Mirrors N) (source v) (source' v)) (driver : List Value) :
    Matches R E (List.Forall₂ (Sight.Mirrors E N)) (session source driver)
      (session source' driver) := by
  induction driver with
  | nil => exact matches_pure .nil
  | cons v driver ih =>
    exact (sources v).sight.bind fun _ _ sight =>
      ih.bind fun _ _ seen => matches_pure (.cons sight seen)

end OneShot
