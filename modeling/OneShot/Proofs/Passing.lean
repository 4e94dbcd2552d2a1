import OneShot.Proofs.Alike

/-!
# Ends that are passed on

A computation around another one goes on as long as that one does. Once the inner one is over, the
outer one is over in the same drive and in the same way. This holds of the dispatch loop and of a
tracer, whatever the services do that they use on the way.
-/

namespace OneShot

variable {V α β S : Type} {live stopped : V → Prop}

namespace Exec

theorem keeps_pure (a : α) : Keeps live (pure a) := fun _ h => h

theorem keeps_raise (e : Error) : Keeps live (raise e : Exec V α) := fun _ h => h

theorem Keeps.bind {x : Exec V α} {f : α → Exec V β} (hx : Keeps live x)
    (hf : ∀ a, Keeps live (f a)) : Keeps live (x >>= f) :=
  keeps_iff_alike.mpr ((keeps_iff_alike.mp hx).bind fun a => keeps_iff_alike.mp (hf a))

/-- From where all is live, the run leaves all live, or it ends and all is shut. If it comes to no
end, it has stopped somewhere. -/
def Passes (live stopped : V → Prop) (shut : Except Error α → V → Prop) (x : Exec V α) : Prop :=
  ∀ p r q, live p → x p = (r, q) →
    r = .exhausted ∧ stopped q ∨ ∃ o, r = .of o ∧ (live q ∨ shut o q)

variable {shut : Except Error α → V → Prop} {shut' : Except Error β → V → Prop}

theorem Keeps.passes (stops : ∀ p, live p → stopped p) {x : Exec V α} (h : Keeps live x) :
    Passes live stopped shut x := by
  intro p r q hp hx
  have hq : live q := by simpa only [hx] using h p hp
  cases r with
  | ok a => exact Or.inr ⟨.ok a, rfl, Or.inl hq⟩
  | raised e => exact Or.inr ⟨.error e, rfl, Or.inl hq⟩
  | exhausted => exact Or.inl ⟨rfl, stops q hq⟩

theorem Passes.bind {x : Exec V α} {f : α → Exec V β} (hx : Passes live stopped shut x)
    (hf : ∀ a, Passes live stopped shut' (f a))
    (returned : ∀ a q, shut (.ok a) q → ∃ o q', f a q = (.of o, q') ∧ shut' o q')
    (raised : ∀ e q, shut (.error e) q → shut' (.error e) q) :
    Passes live stopped shut' (x >>= f) := by
  intro p r q hp hxf
  simp only [Bind.bind, Exec.bind] at hxf
  rcases hxp : x p with ⟨r₁, q₁⟩
  rw [hxp] at hxf
  rcases hx p r₁ q₁ hp hxp with ⟨rfl, stop⟩ | ⟨e | a, rfl, ended⟩
  · obtain ⟨rfl, rfl⟩ := Prod.mk.inj hxf
    exact Or.inl ⟨rfl, stop⟩
  · obtain ⟨rfl, rfl⟩ := Prod.mk.inj hxf
    exact Or.inr ⟨.error e, rfl, ended.imp_right (raised e q₁)⟩
  · rcases ended with hq | ended
    · exact hf a q₁ r q hq hxf
    · obtain ⟨o, q', h, ended⟩ := returned a q₁ ended
      obtain ⟨rfl, rfl⟩ := Prod.mk.inj (h.symm.trans hxf)
      exact Or.inr ⟨o, rfl, Or.inr ended⟩

theorem Passes.after_keeps (stops : ∀ p, live p → stopped p) {x : Exec V α} {f : α → Exec V β}
    (hx : Keeps live x) (hf : ∀ a, Passes live stopped shut' (f a)) :
    Passes live stopped shut' (x >>= f) := by
  have never : Passes live stopped (fun _ _ => False) x := hx.passes stops
  exact never.bind hf (fun _ _ h => h.elim) fun _ _ h => h.elim

end Exec

open Exec

def Host.Keeps (live : V → Prop) (host : Host V) : Prop :=
  host.Alike (fun p q => p = q ∧ live p) host

/-- How the end of a body shows in the step that it makes. -/
def Moved (shut : Sight → V → Prop) (o : Except Error (Move S)) : V → Prop :=
  shut (o.map Move.step)

variable {shut shut' : Sight → V → Prop} (final : ∀ x q, ¬ shut (.ok (.suspended x)) q)
  (stops : ∀ p, live p → stopped p) {host : Host V} (keeps : host.Keeps live) {source : Source V}
  (passes : ∀ v, Passes live stopped shut (source v))

namespace Dispatch

variable {table : Table}

include final stops keeps passes

theorem passes_proceed (bound : Nat) (d : Decision) :
    Passes live stopped (Moved shut) (proceed host table source bound d) := by
  induction bound generalizing d with
  | zero =>
    cases d with
    | stop move =>
      simp only [proceed]
      exact (keeps_pure move).passes stops
    | proceed v =>
      simp only [proceed]
      intro p r q hp hx
      obtain ⟨rfl, rfl⟩ := Prod.mk.inj hx
      exact Or.inl ⟨rfl, stops p hp⟩
  | succ bound ih =>
    cases d with
    | stop move =>
      simp only [proceed]
      exact (keeps_pure move).passes stops
    | proceed v =>
      simp only [proceed]
      refine (passes v).bind (fun step => ?_) ?_ fun e q ended => ended
      · have reacts : Keeps live (react host table step) :=
          keeps_iff_alike.mpr (alike_react keeps table step)
        exact Passes.after_keeps stops reacts ih
      · intro step q ended
        cases step with
        | suspended x => exact (final x q ended).elim
        | completed r => exact ⟨.ok (.complete r), q, by cases bound <;> rfl, ended⟩

theorem passes_advance (bound : Nat) (phase : Phase) (v : Value) :
    Passes live stopped (Moved shut) (advance host table source bound phase v) := by
  have takes : Keeps live (takeUp host phase v) :=
    keeps_iff_alike.mpr (alike_takeUp keeps phase v)
  exact Passes.after_keeps stops takes (passes_proceed final stops keeps passes bound)

omit final stops passes in
theorem keeps_handling (sources : ∀ v, Keeps live (source v)) (table : Table) (bound : Nat)
    (v : Value) : Keeps (fun p => live p.1) (handling host table source bound v) := by
  rintro ⟨w, l⟩ h
  have alike := alike_handling keeps (fun v => keeps_iff_alike.mp (sources v)) table bound v
    (w, l) (w, l) ⟨⟨rfl, h⟩, rfl⟩
  exact alike.2.1.2

end Dispatch

namespace Tracing

variable (noted : ∀ sight n q, shut sight q → ∃ q', host.note n q = (.ok (), q') ∧ shut sight q')

include final stops keeps passes noted

theorem passes_advance (label limit : Value) (phase : Phase) (v : Value) :
    Passes live stopped (Moved shut) (advance host label limit source phase v) := by
  have driven (steps : Nat) (v : Value) : Passes live stopped (Moved shut)
      (source v >>= pass host label limit steps) := by
    refine (passes v).bind (fun step => ?_) ?_ fun e q ended => ended
    · have lets : Keeps live (pass host label limit steps step) :=
        keeps_iff_alike.mpr (alike_pass keeps label limit steps step)
      exact lets.passes stops
    · intro step q ended
      cases step with
      | suspended x => exact (final x q ended).elim
      | completed r =>
        obtain ⟨q', hnote, ended⟩ := noted _ (.traceCompleted label steps r) q ended
        refine ⟨.ok (.complete r), q', ?_, ended⟩
        simp only [pass]
        rw [Exec.bind_ok hnote]
        rfl
  cases phase with
  | start => exact driven 0 .nil
  | waiting steps =>
    have notes : Keeps live (host.note (.traceResumed label steps v)) :=
      keeps_iff_alike.mpr (keeps.note _)
    exact Passes.after_keeps stops notes fun _ => driven steps v

end Tracing

namespace Life

include keeps in
theorem keeps_seal (e : Error) :
    Keeps live (Life.seal host.mint (.error e : Except Error (Move S))) := by
  have mints : Keeps live (host.mint (.refused .endOfIteration)) :=
    keeps_iff_alike.mpr (keeps.mint _)
  by_cases stop : e.kind = .stopIteration
  · simp only [Life.seal, if_pos stop]
    exact mints.bind fun e => keeps_raise e
  · simp only [Life.seal, if_neg stop]
    exact keeps_raise e

variable {cell : Cell V (Life S)} {body : S → Value → Exec V (Move S)}
  (bodies : ∀ s v, Passes live stopped (Moved shut) (body s v))
  (sets : ∀ l p, live p → live (cell.set l p))
  (setsStopped : ∀ l p, stopped p → stopped (cell.set l p))
  (closes : ∀ sight p, shut sight p → shut' sight (cell.set .finished p))
  (kinds : ∀ e p, shut (.error e) p → e.kind ≠ .stopIteration)

include final stops keeps bodies sets setsStopped closes kinds

theorem passes_enter (s : S) (v : Value) :
    Passes live stopped shut' (enter host.mint cell body s v) := by
  intro p r q hp hx
  simp only [enter, Bind.bind, Exec.bind, Exec.modify, Exec.attempt] at hx
  rcases hbody : body s v (cell.set (.running s) p) with ⟨r₁, q₁⟩
  rw [hbody] at hx
  rcases bodies s v _ r₁ q₁ (sets _ p hp) hbody with ⟨rfl, stop⟩ | ⟨e | move, rfl, ended⟩
  · obtain ⟨rfl, rfl⟩ := Prod.mk.inj hx
    exact Or.inl ⟨rfl, setsStopped _ q₁ stop⟩
  · have hx : Life.seal host.mint (.error e : Except Error (Move S)) (cell.set .finished q₁) =
        (r, q) := hx
    rcases ended with hq | ended
    · exact (keeps_seal keeps e).passes stops _ r q (sets _ q₁ hq) hx
    · rw [Life.seal, if_neg (kinds e q₁ ended)] at hx
      obtain ⟨rfl, rfl⟩ := Prod.mk.inj hx
      exact Or.inr ⟨.error e, rfl, Or.inr (closes _ q₁ ended)⟩
  · obtain ⟨rfl, rfl⟩ := Prod.mk.inj hx
    refine Or.inr ⟨.ok move.step, rfl, ?_⟩
    rcases ended with hq | ended
    · exact Or.inl (sets _ q₁ hq)
    · cases move with
      | suspend x next => exact (final x q₁ ended).elim
      | complete r => exact Or.inr (closes _ q₁ ended)

theorem passes_drive (v : Value) : Passes live stopped shut' (drive host.mint cell body v) := by
  have enters := passes_enter final stops keeps bodies sets setsStopped closes kinds
  have mints : Keeps live (host.mint (.refused .running)) := keeps_iff_alike.mpr (keeps.mint _)
  intro p r q hp hx
  cases life : cell.get p with
  | fresh s =>
    rw [drive_entered (life ▸ enters?_fresh s v)] at hx
    exact enters s .nil p r q hp hx
  | suspended s =>
    rw [drive_entered (life ▸ enters?_suspended s v)] at hx
    exact enters s v p r q hp hx
  | running s =>
    rw [drive_running life] at hx
    exact (mints.bind fun e => keeps_raise e).passes stops p r q hp hx
  | finished =>
    rw [drive_finished life] at hx
    obtain ⟨rfl, rfl⟩ := Prod.mk.inj hx
    exact Or.inr ⟨.ok (.completed .nil), rfl, Or.inl hp⟩

end Life

end OneShot
