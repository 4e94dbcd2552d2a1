import OneShot.Proofs.Attending

/-!
# Runs of a source

A run drives its source once and ends as that drive ends. It does nothing else that anybody could
see.
-/

namespace OneShot

/-- How a run ends whose one drive of the source ends so. -/
inductive Concludes : Result Step → Result Value → Prop where
  | completed {v : Value} : Concludes (.ok (.completed v)) (.ok v)
  | suspended {x : Value} {e : Error} (cause : e.cause = .unhandled x) :
      Concludes (.ok (.suspended x)) (.raised e)
  | raised {e : Error} : Concludes (.raised e) (.raised e)
  | exhausted : Concludes .exhausted .exhausted

/-- The same end of two runs. Errors about an action that nobody has handled are compared by the
action. -/
inductive Agrees : Result Value → Result Value → Prop where
  | same {r : Result Value} : Agrees r r
  | unhandled {x : Value} {e e' : Error} (cause : e.cause = .unhandled x)
      (cause' : e'.cause = .unhandled x) : Agrees (.raised e) (.raised e')

theorem Concludes.agrees {r : Result Step} {o o' : Result Value} (h : Concludes r o)
    (h' : Concludes r o') : Agrees o o' := by
  cases h with
  | suspended cause =>
    cases h' with
    | suspended cause' => exact .unhandled cause cause'
  | _ =>
    cases h'
    exact .same

theorem Concludes.unhandled {x : Value} {o : Result Value} (h : Concludes (.ok (.suspended x)) o) :
    ∃ e, o = .raised e ∧ e.cause = .unhandled x := by
  cases h with
  | suspended cause => exact ⟨_, rfl, cause⟩

theorem TopLevel.concludes {W : Type} {host : Host W} (mints : host.Mints) (source : Source W)
    (w : W) : Concludes (source .nil w).1 (finish host source w).1 := by
  simp only [finish, Bind.bind, Exec.bind]
  rcases source .nil w with ⟨r, w₁⟩
  rcases r with (x | v) | e | _
  · obtain ⟨e, w₂, minted, cause⟩ := mints (.unhandled x) w₁
    simp only [Host.fail, Exec.bind_ok minted]
    exact .suspended cause
  · exact .completed
  · exact .raised
  · exact .exhausted

namespace World

variable {L : Language} {program : Program L} {c : Nat} {source : Value} {w w₁ : World L}
  {drive : Nat → Value → Exec (World L) Step} {call : Value → List Value → Exec (World L) Value}

/-- How a run goes whose drive of the source `c` has gone so. It ends as the drive does and leaves
the computations as the drive does, except for some of them. A source that has suspended stays where
it is, unless it is delegated to itself. -/
structure DecidedBy (program : Program L) (c : Nat) (but : Nat → Prop)
    (drive : Result Step × World L) (outcome : Result Value × World L) : Prop where
  concludes : Concludes drive.1 outcome.1
  unmoved : Unmoved but drive.2 outcome.2
  waits : ∀ x, drive.1 = .ok (.suspended x) → c < outcome.2.computations.next → ¬ but c →
    ∃ body, WaitsAt program x body ∧ ((lifeCell c).get outcome.2 = .suspended body ∨
      Delegation.delegate? program body = some c)

theorem decidedBy {host : Host (World L)} (orderly : Orderly program host) {but : Nat → Prop}
    {outcome : Result Value × World L} :
    Concludes (host.drive c .nil w).1 outcome.1 → Unmoved but (host.drive c .nil w).2 outcome.2 →
      DecidedBy program c but (host.drive c .nil w) outcome := by
  intro concludes unmoved
  refine ⟨concludes, unmoved, fun x suspended known apart => ?_⟩
  rw [unmoved.next] at known
  rw [unmoved.life c apart]
  exact orderly.waits (Prod.ext suspended rfl) known

theorem unmoved_finish (drive : Nat → Value → Exec (World L) Step)
    (call : Value → List Value → Exec (World L) Value) (source : Source (World L)) (w : World L) :
    Unmoved (fun _ => False) (source .nil w).2
      (TopLevel.finish (World.host drive call) source w).2 := by
  simp only [TopLevel.finish, Bind.bind, Exec.bind]
  rcases source .nil w with ⟨r, w₁⟩
  rcases r with (x | v) | e | _ <;> exact .of_uneventful .noted rfl

/-- The world in which a run holds its source. -/
def held (c : Nat) (w : World L) : World L := { w with pending := .computation c :: w.pending }

theorem holding_held {α : Type} (x : Exec (World L) α) (c : Nat) (w : World L) :
    (holding [.computation c] x w).1 = (x (held c w)).1 ∧
      Unmoved (fun _ => False) (x (held c w)).2 (holding [.computation c] x w).2 := by
  rcases run : x (held c w) with ⟨r, w₁⟩
  have begun : x { w with pending := [.computation c] ++ w.pending } = (r, w₁) := run
  simp only [holding, List.filter, leadsOn, Bind.bind, Exec.bind, Exec.read, Exec.modify,
    Exec.attempt, begun]
  cases r <;> exact ⟨rfl, .of_uneventful .noted rfl⟩

theorem run_decided (orderly : Orderly program (World.host drive call))
    (converted : toComputation (World.host drive call) source w = (.ok c, w₁)) :
    DecidedBy program c (fun _ => False) (drive c .nil (held c w₁))
      (run (World.host drive call) source w) := by
  obtain ⟨ends, left⟩ := holding_held (TopLevel.finish (World.host drive call) (drive c)) c w₁
  have concludes := TopLevel.concludes (mints_host drive call) (drive c) (held c w₁)
  rw [run, Exec.bind_ok converted]
  rw [← ends] at concludes
  exact decidedBy orderly concludes ((unmoved_finish drive call (drive c) _).trans left)

end World

end OneShot
