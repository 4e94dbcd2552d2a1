import OneShot.Proofs.Attending
import OneShot.Proofs.Forwarding
import OneShot.Proofs.Sequencing
import OneShot.Proofs.Throws

/-!
# Recovery from throws

A computation that is recovered behaves as the computation itself until that throws for the first
time. Then it completes with what the recovering function makes of the error, and the computation
stays where it is. Nothing that is put around it is asked about throws any more.
-/

namespace OneShot

namespace Dispatch

variable {V : Type} {host : Host V} {t : Table} {c : Source V} {phase : Phase} {v u : Value}
  {l l' : Life Phase} {p p₁ p' : V} {sight : Sight}

theorem ends_round (entry : l.enters? v = some (phase, u))
    (takes : takeUp host phase u = pure (.proceed u)) {step : Step} (drive : c u p = (.ok step, p₁))
    {a : Exec V Value}
    (reacts : react host t step p₁ = (do return Decision.stop (.complete (← a))) p₁) :
    Exec.Ends (fun b => handling host t c b v) (p, l) sight (p', l') ↔
      ∃ o p₂, a p₁ = (.of o, p₂) ∧
        Life.seal host.mint (o.map (Move.complete (S := Phase))) p₂ = (.of sight, p') ∧
        l' = .finished := by
  rw [handling_entered_const entry, takes]
  constructor
  · rintro ⟨d, p₀, o, p₂, taken, runs, sealed, left⟩
    obtain ⟨rfl, rfl⟩ := Exec.pure_eq_of.mp taken
    cases runs with
    | broken drive' =>
      rw [Exec.ends_const, drive] at drive'
      cases drive'
    | @round _ _ step' p₃ d p₄ _ _ drive' reacted rest =>
      rw [Exec.ends_const, drive] at drive'
      obtain ⟨rfl, rfl⟩ : step = step' ∧ p₁ = p₃ := by simpa using drive'
      rw [Exec.ends_const, reacts, ← Exec.ends_const, Exec.ends_map] at reacted
      obtain ⟨o', rfl, answers⟩ := reacted
      cases o' <;> cases rest <;> exact ⟨_, _, Exec.ends_const.mp answers, sealed, left⟩
  · rintro ⟨o, p₂, answers, sealed, left⟩
    have reacted := reacts.trans (Exec.bind_of (f := fun v => Decision.stop (.complete v)) answers)
    refine ⟨.ok (.proceed u), p, o.map .complete, p₂, rfl, ?_, sealed, ?_⟩
    · refine .round (Exec.ends_const.mpr drive) (Exec.ends_const.mpr reacted) ?_
      cases o with
      | ok move => exact .stop
      | error e => exact .failed
    · cases o <;> exact left

end Dispatch

namespace World.Recovery

open Dispatch (Phase react resolve handling following)

variable {L : Language} {S : Type}

/-- The computation that recovers a computation from throws. Both lives stand beside the world. -/
def catching (program : Program L) (steps depth id : Nat) (recover : Value)
    (body : S → Value → Exec (World L) (Move S)) (bound : Nat) :
    Source ((World L × Life S) × Life Phase) :=
  handling (services program steps depth).beside (table id (.throwAbort recover))
    (Source.ofBody mint body) bound

/-- What a driver sees of a computation that has ended. -/
def ended (driver : List Value) : List Sight := driver.map fun _ => .ok (.completed .nil)

/-- What a driver sees of a computation that is recovered from its first throw, and where it leaves
the world and the computation. -/
inductive Recovered (call : Value → List Value → Exec (World L) Value) (recover : Value)
    (c : Source (World L × Life S)) :
    List Value → World L × Life S → List Sight → World L × Life S → Prop where
  | nil {p} : Recovered call recover c [] p [] p
  /-- The computation is driven, and what it shows is seen. -/
  | passed {v driver p sight p₁ seen p₂} (drive : c v p = (.of sight, p₁))
      (passed : ∀ x, sight = .ok (.suspended x) → thrown? x = none)
      (rest : Recovered call recover c driver p₁ seen p₂) :
      Recovered call recover c (v :: driver) p (sight :: seen) p₂
  /-- The computation throws. It stays suspended and is not driven any more. -/
  | thrown {v driver p x t w next o w₁ sight w₂}
      (drive : c v p = (.ok (.suspended x), (w, .suspended next))) (throws : thrown? x = some t)
      (responds : respond call recover x t w = (.of o, w₁))
      (sealed : Life.seal mint (o.map (Move.complete (S := Phase))) w₁ = (.of sight, w₂)) :
      Recovered call recover c (v :: driver) p (sight :: ended driver) (w₂, .suspended next)

/-- Wherever the computation leads, the recovering function leaves the token of a throw alone. -/
def Unaware (call : Value → List Value → Exec (World L) Value) (recover : Value)
    (c : Source (World L × Life S)) (p : World L × Life S) : Prop :=
  ∀ {driver seen q v x e w l}, Source.Shown (fun _ => c) driver p seen q →
    c v q = (.ok (.suspended x), (w, l)) → thrown? x = some (.error e) → Spared call recover x e w

theorem Unaware.after {call : Value → List Value → Exec (World L) Value} {recover v : Value}
    {c : Source (World L × Life S)} {p p' : World L × Life S} {sight : Sight}
    (unaware : Unaware call recover c p) (drive : c v p = (.of sight, p')) :
    Unaware call recover c p' :=
  fun shown => unaware (.cons (Exec.ends_const.mpr drive) shown)

section

variable {program : Program L} {steps depth id : Nat} {recover : Value}
  {body : S → Value → Exec (World L) (Move S)} {l l₁ : Life S} {v : Value} {w w₁ : World L}

variable (body) in
theorem lives_source : Source.Lives (fun _ => Source.ofBody mint body) Prod.snd :=
  Source.lives_ofBody mints_world fun _ _ => Exec.growing_const _

theorem left_source {p p' : World L × Life S} {sight : Sight} (still : p.2.isRunning = false)
    (drive : Source.ofBody mint body v p = (.of sight, p')) : p'.2.LeftBy sight :=
  (lives_source body).left still (Exec.ends_const.mpr drive)

theorem react_of_answer {host : Host (World L)} {x : Value} {t : Table} {a : Exec (World L) Value}
    (h : resolve host t x w = (do return Dispatch.Decision.stop (.complete (← a))) w) :
    react host.beside t (.suspended x) (w, l) =
      (do return Dispatch.Decision.stop (.complete (← a.beside))) (w, l) := by
  have stops : (do return Dispatch.Decision.stop (.complete (← a.beside)) :
      Exec (World L × Life S) _) =
        (do return Dispatch.Decision.stop (.complete (← a)) : Exec (World L) _).beside :=
    (Exec.beside_bind a fun v => pure (Dispatch.Decision.stop (.complete v))).symm
  rw [Dispatch.react_beside, stops, Exec.beside_apply, Exec.beside_apply, ← h]
  rfl

/-! ## One drive -/

theorem drive_passed {p p' : World L × Life S} {sight : Sight} {m : Life Phase}
    (still : p.2.isRunning = false)
    (passes : ∀ x p', Source.ofBody mint body v p = (.ok (.suspended x), p') → thrown? x = none) :
    Exec.Ends (fun b => catching program steps depth id recover body b v) (p, following p.2) sight
        (p', m) ↔
      Source.ofBody mint body v p = (.of sight, p') ∧ m = following p'.2 := by
  rw [← Exec.ends_const (x := Source.ofBody mint body v)]
  refine Dispatch.ends_forwarding (lives_source body) (fun _ => rfl) still fun x p' drive => ?_
  exact thrown?_eq_none.mp (passes x p' (Exec.ends_const.mp drive))

theorem drive_thrown {x : Value} {t : Thrown} {sight : Sight} {w₂ : World L} {l₂ : Life S}
    {m : Life Phase}
    (unaware : Unaware (kernel program steps (depth + 1)).call recover (Source.ofBody mint body)
      (w, l))
    (still : l.isRunning = false)
    (drive : Source.ofBody mint body v (w, l) = (.ok (.suspended x), (w₁, l₁)))
    (throws : thrown? x = some t) :
    Exec.Ends (fun b => catching program steps depth id recover body b v) ((w, l), following l)
        sight ((w₂, l₂), m) ↔
      ∃ o w', respond (kernel program steps (depth + 1)).call recover x t w₁ = (.of o, w') ∧
        Life.seal mint (o.map (Move.complete (S := Phase))) w' = (.of sight, w₂) ∧ l₂ = l₁ ∧
        m = .finished := by
  have lives := lives_source body
  have going : l ≠ .finished := by
    rintro rfl
    cases (lives.finished rfl 0 v).symm.trans drive
  obtain ⟨phase, u, entry, takes, same⟩ :=
    Dispatch.following_enters (p := (w, l)) (services program steps depth).beside lives still going
      v
  -- The function leaves the new token alone, so the loop finds the abort there.
  have spared (e : Value) (error : t = .error e) :
      Spared (kernel program steps (depth + 1)).call recover x e w₁ :=
    unaware .nil drive (error ▸ throws)
  refine (Dispatch.ends_round entry takes ((same 0).trans drive)
    (react_of_answer (resolve_thrown throws spared))).trans ?_
  constructor
  · rintro ⟨o, ⟨w', l'⟩, recovers, sealed, rfl⟩
    obtain ⟨recovered, rfl⟩ := Exec.beside_eq.mp recovers
    rw [Dispatch.seal_beside] at sealed
    obtain ⟨kept, rfl⟩ := Exec.beside_eq.mp sealed
    exact ⟨o, w', recovered, kept, rfl, rfl⟩
  · rintro ⟨o, w', recovered, sealed, rfl, rfl⟩
    refine ⟨o, (w', l₂), Exec.beside_eq.mpr ⟨recovered, rfl⟩, ?_, rfl⟩
    rw [Dispatch.seal_beside]
    exact Exec.beside_eq.mpr ⟨sealed, rfl⟩

variable (body) in
theorem throws_or_passes (v : Value) (p : World L × Life S) :
    (∃ x t p', Source.ofBody mint body v p = (.ok (.suspended x), p') ∧ thrown? x = some t) ∨
      ∀ x p', Source.ofBody mint body v p = (.ok (.suspended x), p') → thrown? x = none := by
  by_cases h : ∃ x p', Source.ofBody mint body v p = (.ok (.suspended x), p') ∧ thrown? x ≠ none
  · obtain ⟨x, p', drive, throws⟩ := h
    obtain ⟨t, throws⟩ := Option.ne_none_iff_exists'.mp throws
    exact Or.inl ⟨x, t, p', drive, throws⟩
  · refine Or.inr fun x p' drive => ?_
    by_contra throws
    exact h ⟨x, p', drive, throws⟩

/-! ## Sessions -/

theorem shown_catching {driver : List Value} {p p' : World L × Life S} {seen : List Sight}
    (unaware : Unaware (kernel program steps (depth + 1)).call recover (Source.ofBody mint body) p)
    (still : p.2.isRunning = false) :
    (∃ m, Source.Shown (catching program steps depth id recover body) driver (p, following p.2)
        seen (p', m)) ↔
      Recovered (kernel program steps (depth + 1)).call recover (Source.ofBody mint body) driver p
        seen p' := by
  induction driver generalizing p seen with
  | nil =>
    constructor
    · rintro ⟨m, ⟨⟩⟩
      exact .nil
    · rintro ⟨⟩
      exact ⟨_, .nil⟩
  | cons v driver ih =>
    -- A throw ends the loop, so there is nothing left to recover after it. Every other drive is
    -- passed on, and the induction goes on from there.
    obtain ⟨x, t, ⟨w₁, l₁⟩, throw, throws⟩ | passes := throws_or_passes body v p
    · have yields : Source.ofBody mint body v p = (.of (.ok (.suspended x)), (w₁, l₁)) := throw
      obtain ⟨next, rfl⟩ : ∃ next, l₁ = .suspended next := left_source still yields
      constructor
      · rintro ⟨m, _ | @⟨_, _, _, sight, ⟨⟨w₂, l₂⟩, m₂⟩, seen, _, drive, rest⟩⟩
        obtain ⟨o, w', responds, sealed, rfl, rfl⟩ :=
          (drive_thrown unaware still throw throws).mp drive
        obtain ⟨rfl, left⟩ := Dispatch.shown_finished.mp rest
        obtain ⟨rfl, -⟩ := Prod.mk.inj left
        exact .thrown throw throws responds sealed
      · rintro (_ | ⟨drive, passed, -⟩ | ⟨drive, throws', responds, sealed⟩)
        · obtain ⟨same, -⟩ := Prod.mk.inj (throw.symm.trans drive)
          have none := passed x (Result.of_inj.mp ((Result.of_ok _).trans same)).symm
          cases none.symm.trans throws
        · obtain ⟨⟨⟩, ⟨⟩⟩ := Prod.mk.inj (throw.symm.trans drive)
          obtain rfl := Option.some.inj (throws.symm.trans throws')
          exact ⟨_, .cons
            ((drive_thrown unaware still throw throws).mpr ⟨_, _, responds, sealed, rfl, rfl⟩)
            (Dispatch.shown_finished.mpr ⟨rfl, rfl⟩)⟩
    · constructor
      · rintro ⟨m, _ | @⟨_, _, _, sight, ⟨q, m₂⟩, seen, _, drive, rest⟩⟩
        obtain ⟨source, rfl⟩ := (drive_passed still passes).mp drive
        have left := (left_source still source).still
        refine .passed source ?_ ((ih (unaware.after source) left).mp ⟨_, rest⟩)
        rintro x rfl
        exact passes x q source
      · rintro (_ | ⟨drive, -, rest⟩ | ⟨drive, throws, -, -⟩)
        · obtain ⟨m, rest⟩ := (ih (unaware.after drive) (left_source still drive).still).mpr rest
          exact ⟨m, .cons ((drive_passed still passes).mpr ⟨drive, rfl⟩) rest⟩
        · cases (passes _ _ drive).symm.trans throws

variable (program steps depth recover body) in
/-- How the computation and the loop around it rest between two drives. -/
structure Resting (q : (World L × Life S) × Life Phase) : Prop where
  still : q.1.2.isRunning = false
  follows : q.2 = .finished ∨ q.2 = following q.1.2 ∧
    Unaware (kernel program steps (depth + 1)).call recover (Source.ofBody mint body) q.1

theorem Resting.loop_still {q : (World L × Life S) × Life Phase}
    (h : Resting program steps depth recover body q) : q.2.isRunning = false := by
  obtain h | ⟨h, -⟩ := h.follows
  · rw [h]
    rfl
  · rw [h]
    cases q.1.2 <;> rfl

theorem drive_resting {q q' : (World L × Life S) × Life Phase} {sight : Sight}
    (resting : Resting program steps depth recover body q)
    (drive : Exec.Ends (fun b => catching program steps depth id recover body b v) q sight q') :
    Resting program steps depth recover body q' ∧
      ∀ x, sight = .ok (.suspended x) → thrown? x = none := by
  obtain ⟨p, m⟩ := q
  obtain ⟨p', m'⟩ := q'
  obtain ⟨still, follows⟩ := resting
  simp only at still follows
  obtain rfl | ⟨rfl, unaware⟩ := follows
  · obtain ⟨rfl, hl, rfl⟩ := Dispatch.handling_finished_const.mp drive
    exact ⟨⟨still, Or.inl hl⟩, fun x h => by cases h⟩
  · obtain ⟨x, t, ⟨w₁, l₁⟩, throw, throws⟩ | passes := throws_or_passes body v p
    · have yields : Source.ofBody mint body v p = (.of (.ok (.suspended x)), (w₁, l₁)) := throw
      obtain ⟨o, w', -, sealed, left, rfl⟩ := (drive_thrown unaware still throw throws).mp drive
      refine ⟨⟨?_, Or.inl rfl⟩, ?_⟩
      · rw [left]
        exact (left_source still yields).still
      · rintro x rfl
        obtain e | a := o
        · obtain ⟨e', ⟨⟩⟩ := Life.error_of_seal mints_world sealed
        · cases sealed
    · obtain ⟨source, rfl⟩ := (drive_passed still passes).mp drive
      refine ⟨⟨(left_source still source).still, Or.inr ⟨rfl, unaware.after source⟩⟩, ?_⟩
      rintro x rfl
      exact passes x p' source

/-- Another table of throws around the loop is never asked. -/
theorem shown_around {outer : Host ((World L × Life S) × Life Phase)}
    (quiet : ∀ n, outer.note n = pure ()) (id' : Nat) (f : Native Value) {driver : List Value}
    {q q' : (World L × Life S) × Life Phase} {m : Life Phase} {seen : List Sight}
    (resting : Resting program steps depth recover body q) :
    Source.Shown
        (fun b => handling outer (table id' f) (catching program steps depth id recover body b) b)
        driver (q, following q.2) seen (q', m) ↔
      Source.Shown (catching program steps depth id recover body) driver q seen q' ∧
        m = following q'.2 := by
  refine Dispatch.shown_forwarding (Dispatch.lives_handling ?_ fun v => Exec.growing_const _) quiet
    (Resting program steps depth recover body) Resting.loop_still
    (fun resting drive => (drive_resting resting drive).1)
    (fun resting drive => ?_) resting
  · exact fun _ _ => ⟨_, _, rfl, rfl⟩
  · exact thrown?_eq_none.mp ((drive_resting resting drive).2 _ rfl)

end

namespace SmallRecovery

def language : Language := ⟨Unit, Unit, Unit⟩

def stop : Error := ⟨0, .made .stopIteration none, none⟩

/-- Raises the end of an iteration for a nought, and gives back everything else. -/
def recover : Value → Exec (World language) Value
  | .int 0 => Exec.raise stop
  | v => pure v

def program : Program language where
  call _ _ _ arguments := recover (arguments.headD .nil)
  advance _ _ _ _ := return .complete .nil
  delegate? _ := none
  names _ _ := false
  lost _ _ := []

def throw (parameters : List Value) : Value :=
  .action 0 (.str "failure") (.str "throw") 0 parameters

/-- An action of an effect that goes by a list. -/
def unnamed : Value := .action 0 (.list 0) (.str "x") 0 []

/-- Yields once and completes with the answer. -/
def body (x : Value) : Bool → Value → Exec (World language) (Move Bool)
  | false, _ => return .suspend x true
  | true, v => return .complete v

def start : World language := { memory := (), functions := ⟨#[()]⟩ }

theorem tokens_call (e : Value) (w : World language) :
    ((kernel program 1 1).call (.function 0) [e] w).2.tokens = w.tokens := by
  show (callValue program _ 1 (.function 0) [e] w).2.tokens = _
  rw [callValue]
  simp only [Bind.bind, Exec.bind, Exec.read]
  cases w.functions.get? 0 with
  | none => rfl
  | some code =>
    show (recover e w).2.tokens = _
    unfold recover
    split <;> rfl

def caught (x : Value) : Nat → Source ((World language × Life Bool) × Life Phase) :=
  catching program 1 0 0 (.function 0) (body x)

end SmallRecovery

end World.Recovery

end OneShot
