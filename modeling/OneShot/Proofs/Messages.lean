import Mathlib.Data.List.Chain
import OneShot.Proofs.Attending
import OneShot.Proofs.Mappings
import OneShot.Proofs.MessageCalls
import OneShot.Proofs.Stack

/-!
# Messages that computations tell

Several computations are handled with the table of one live list. They are driven in any order, also
by one another while they run. A log keeps the world at each moment. As long as nobody but the
handlers changes the live list, it is what has been told until then, and whoever listens gets a list
of the same messages.
-/

namespace OneShot.World.Writer

open Dispatch (Phase Decision react proceed)

variable {L : Language}

/-! ## Logs -/

inductive Deed where
  /-- Somebody looks at the world while no handler is at work. -/
  | outside
  /-- A loop drives the computation at a place. -/
  | begun (place : Nat) (v : Value)
  | ended (place : Nat) (sight : Sight)

/-- The operation that a loop answers next, with the place of the loop. -/
def Deed.asks? : Deed → Option (Nat × Operation)
  | .ended place (.ok (.suspended x)) => (asked x).map (place, ·)
  | _ => none

structure Moment (L : Language) where
  deed : Deed
  world : World L

abbrev Log (L : Language) := List (Moment L)

/-- The messages that are told in a log, in their order. -/
def told (log : Log L) : List Value :=
  log.filterMap fun m => m.deed.asks?.bind (·.2.told?)

/-- An operation is answered at once, and nothing happens to the lists besides. -/
def Moment.Leads (live : Nat) (m m' : Moment L) : Prop :=
  ∀ place o, m.deed.asks? = some (place, o) →
    m'.deed = .begun place (o.answer m.world) ∧ m'.world.lists = o.lists live m.world

/-- The lists of `D` are the same as before, and the others have not been given up. -/
def Kept (D : Nat → Prop) (w w' : World L) : Prop :=
  w.lists.next ≤ w'.lists.next ∧ ∀ d, D d → d < w.lists.next → w'.lists.get? d = w.lists.get? d

/-- Nobody but the handlers has changed the lists of `D`. -/
def Undisturbed (D : Nat → Prop) (log : Log L) : Prop :=
  log.IsChain fun m m' => m.deed.asks? = none → Kept D m.world m'.world

/-- The log begins in a world, and each operation in it is answered. -/
structure Lawful (live : Nat) (start : World L) (log : Log L) : Prop where
  first : log.head? = some ⟨.outside, start⟩
  chain : log.IsChain (Moment.Leads live)

/-! ## Sessions -/

/-- A world with a log, and the lives of the handled computations. -/
abbrev Shared (L : Language) := (World L × Log L) × (Nat → Life Phase)

def Shared.noted (deed : Deed) (p : Shared L) : Shared L :=
  ((p.1.1, p.1.2 ++ [⟨deed, p.1.1⟩]), p.2)

def record (deed : Deed) : Exec (Shared L) Unit := Exec.modify (Shared.noted deed)

def watched (place : Nat) (c : Source (Shared L)) : Source (Shared L) := fun v => do
  record (.begun place v)
  let sight ← (c v).look
  record (.ended place sight)
  match sight with
  | .ok step => return step
  | .error e => Exec.raise e

/-- The computation at a place may drive the handled ones, which are given to it. -/
abbrev Code (L : Language) := Nat → (Nat → Source (Shared L)) → Source (Shared L)

/-- What the parts of a session can do. They neither read the log nor write it, and the handled
computations are theirs to drive only. -/
inductive Does (drive : Nat → Source (Shared L)) : {α : Type} → Exec (Shared L) α → Prop where
  | alone {α : Type} (x : Exec (World L) α) : Does drive x.beside.beside
  | drives (place : Nat) (v : Value) : Does drive (drive place v)
  /-- The lives can be seen. -/
  | sees {α : Type} (f : (Nat → Life Phase) → α) : Does drive (Exec.read fun p => f p.2)
  /-- Puts the moment into the log. -/
  | looks : Does drive (record .outside)
  | bind {α β : Type} {x : Exec (Shared L) α} {f : α → Exec (Shared L) β} (does : Does drive x)
      (next : ∀ a, Does drive (f a)) : Does drive (x >>= f)
  | rescue {α : Type} {x : Exec (Shared L) α} {handler : Error → Exec (Shared L) α}
      (does : Does drive x) (next : ∀ e, Does drive (handler e)) : Does drive (x.rescue handler)

section

variable (program : Program L) (steps depth id live bound : Nat) (code : Code L)

/-- The handled computations, with a bound on how deep their drives are nested. -/
def handled : Nat → Nat → Source (Shared L)
  | 0, _ => fun _ => Exec.exhausted
  | nesting + 1, place =>
    Life.drive (kernel program steps (depth + 2)).beside.beside.mint (Cell.nth place)
      (Dispatch.advance (kernel program steps (depth + 2)).beside.beside (table id live)
        (watched place (code place (handled nesting))) bound)

end

/-- The whole log of a driver. What it raises does not matter here. -/
def session (driver : Exec (Shared L) Unit) : Exec (Shared L) Unit := do
  record .outside
  driver.rescue fun _ => pure ()
  record .outside

def opening (w : World L) : Shared L := ((w, []), fun _ => .fresh .start)

/-! ## The log of a session -/

theorem lawful_concat {live : Nat} {start : World L} {log : Log L} {m : Moment L}
    (lawful : Lawful live start log) :
    Lawful live start (log ++ [m]) ↔ ∀ m₀ ∈ log.getLast?, m₀.Leads live m := by
  constructor
  · intro longer m₀ last
    exact (List.isChain_append.mp longer.chain).2.2 m₀ last m rfl
  · intro leads
    refine ⟨by rw [List.head?_append, lawful.first]; rfl, ?_⟩
    refine List.isChain_append.mpr ⟨lawful.chain, List.isChain_singleton m, ?_⟩
    simpa using leads

/-- No loop waits for the computation of a handler. -/
def Plain (lives : Nat → Life Phase) : Prop :=
  ∀ k phase, (lives k).body? = some phase → phase = .start ∨ phase = .forwarding

/-- No loop is about to answer, and none waits for the computation of a handler. -/
structure Rests (live : Nat) (start : World L) (p : Shared L) : Prop where
  lawful : Lawful live start p.1.2
  still : ∀ m ∈ p.1.2.getLast?, m.deed.asks? = none
  lives : Plain p.2

/-- How a run ends that keeps to the rules: `post` holds of what it gives, and if it raises,
everything rests. -/
inductive Ends (live : Nat) (start : World L) {α : Type} (post : α → Shared L → Prop) :
    Result α × Shared L → Prop where
  | ok {a q} (holds : post a q) : Ends live start post (.ok a, q)
  | raised {e q} (rests : Rests live start q) : Ends live start post (.raised e, q)
  | exhausted {q} (lawful : Lawful live start q.1.2) : Ends live start post (.exhausted, q)

/-- The run keeps to the rules, and everything rests again. -/
def Fine (live : Nat) (start : World L) {α : Type} (x : Exec (Shared L) α) : Prop :=
  ∀ p, Rests live start p → Ends live start (fun _ => Rests live start) (x p)

section

variable {program : Program L} {steps depth id live bound : Nat} {start : World L}
  {α β : Type} {p : Shared L}

theorem Ends.bind {post : α → Shared L → Prop} {post' : β → Shared L → Prop}
    {x : Exec (Shared L) α} {f : α → Exec (Shared L) β} (hx : Ends live start post (x p))
    (hf : ∀ a q, post a q → Ends live start post' (f a q)) :
    Ends live start post' ((x >>= f) p) := by
  rcases hrun : x p with ⟨r, q⟩
  rw [hrun] at hx
  cases hx with
  | ok holds => exact Exec.bind_ok hrun ▸ hf _ _ holds
  | raised rests => exact Exec.bind_raised hrun ▸ .raised rests
  | exhausted lawful => exact Exec.bind_exhausted hrun ▸ .exhausted lawful

theorem Plain.update {lives : Nat → Life Phase} (plain : Plain lives) (place : Nat)
    {life : Life Phase}
    (h : ∀ phase, life.body? = some phase → phase = .start ∨ phase = .forwarding) :
    Plain (Function.update lives place life) := by
  intro k phase
  by_cases hk : k = place
  · subst hk
    rw [Function.update_self]
    exact h phase
  · rw [Function.update_of_ne hk]
    exact plain k phase

theorem Rests.concat (rests : Rests live start p) (m : Moment L) :
    Lawful live start (p.1.2 ++ [m]) := by
  refine (lawful_concat rests.lawful).mpr fun m₀ last place o asks => ?_
  rw [rests.still m₀ last] at asks
  cases asks

theorem Rests.recorded (rests : Rests live start p) {deed : Deed} (silent : deed.asks? = none) :
    Rests live start (p.noted deed) := by
  refine ⟨rests.concat _, ?_, rests.lives⟩
  intro m last
  obtain rfl : _ = m := by simpa [Shared.noted] using last
  exact silent

theorem fine_record {deed : Deed} (silent : deed.asks? = none) :
    Fine live start (record deed : Exec (Shared L) Unit) :=
  fun _ rests => .ok (rests.recorded silent)

theorem Fine.rescue {x : Exec (Shared L) α} {handler : Error → Exec (Shared L) α}
    (hx : Fine live start x) (hh : ∀ e, Fine live start (handler e)) :
    Fine live start (x.rescue handler) := by
  intro p rests
  have ends := hx p rests
  rcases hrun : x p with ⟨r, q⟩
  rw [hrun] at ends
  simp only [Exec.rescue, hrun]
  cases ends with
  | ok rests => exact .ok rests
  | raised rests => exact hh _ q rests
  | exhausted lawful => exact .exhausted lawful

theorem Does.fine {drive : Nat → Source (Shared L)}
    (drives : ∀ place v, Fine live start (drive place v)) {x : Exec (Shared L) α}
    (does : Does drive x) : Fine live start x := by
  induction does with
  | alone x =>
    intro p rests
    have rests' : Rests live start (x.beside.beside p).2 := ⟨rests.lawful, rests.still, rests.lives⟩
    rcases hrun : x.beside.beside p with ⟨a | e | -, q⟩ <;> rw [hrun] at rests'
    · exact .ok rests'
    · exact .raised rests'
    · exact .exhausted rests'.lawful
  | drives place v => exact drives place v
  | sees f => exact fun p rests => .ok rests
  | looks => exact fine_record rfl
  | bind _ _ hx hf => exact fun p rests => (hx p rests).bind fun a q => hf a q
  | rescue _ _ hx hh => exact hx.rescue hh

/-! ## A drive -/

/-- The source at a place has been driven. It may have asked for an operation. -/
structure Driven (live : Nat) (start : World L) (place : Nat) (step : Step) (p : Shared L) :
    Prop where
  lawful : Lawful live start p.1.2
  last : p.1.2.getLast? = some ⟨.ended place (.ok step), p.1.1⟩
  lives : Plain p.2

/-- The loop at a place may carry out a decision. -/
def Due (live : Nat) (start : World L) (place : Nat) : Decision → Shared L → Prop
  | .proceed v, p => Lawful live start p.1.2 ∧ Rests live start (p.noted (.begun place v))
  | .stop move, p => Rests live start p ∧ ∀ x phase, move = .suspend x phase → phase = .forwarding

theorem ends_watched {c : Source (Shared L)} {place : Nat} {v : Value}
    (fine : Fine live start (c v)) (due : Due live start place (.proceed v) p) :
    Ends live start (Driven live start place) (watched place c v p) := by
  have ends := fine _ due.2
  have begun : record (.begun place v) p = (.ok (), p.noted (.begun place v)) := rfl
  rw [watched, Exec.bind_ok begun]
  rcases hrun : c v (p.noted (.begun place v)) with ⟨r, q⟩
  rw [hrun] at ends
  cases ends with
  | @ok step _ rests =>
    rw [Exec.bind_ok (Exec.look_eq.mpr ⟨.ok step, rfl, hrun⟩)]
    exact .ok ⟨rests.concat _, List.getLast?_concat, rests.lives⟩
  | @raised e _ rests =>
    rw [Exec.bind_ok (Exec.look_eq.mpr ⟨.error e, rfl, hrun⟩)]
    exact .raised (rests.recorded rfl)
  | exhausted lawful =>
    have look : (c v).look (p.noted (.begun place v)) = (.exhausted, q) := by
      simp only [Exec.look, Exec.rescue, Exec.bind_exhausted hrun]
    rw [Exec.bind_exhausted look]
    exact .exhausted lawful

theorem Driven.rests {place : Nat} {step : Step} (driven : Driven live start place step p)
    (silent : (Deed.ended place (.ok step)).asks? = none) {w : World L} :
    Rests live start ((w, p.1.2), p.2) := by
  refine ⟨driven.lawful, fun m last => ?_, driven.lives⟩
  obtain rfl : _ = m := Option.some.inj (driven.last.symm.trans last)
  exact silent

theorem ends_react {place : Nat} {step : Step} (driven : Driven live start place step p) :
    Ends live start (Due live start place)
      (react (kernel program steps (depth + 2)).beside.beside (table id live) step p) := by
  rw [Dispatch.react_beside, Dispatch.react_beside]
  have beside {r : Result Decision} {w : World L}
      (run : react (kernel program steps (depth + 2)) (table id live) step p.1.1 = (r, w)) :
      (react (kernel program steps (depth + 2)) (table id live) step).beside.beside p =
        (r, ((w, p.1.2), p.2)) := Exec.beside_eq.mpr ⟨Exec.beside_eq.mpr ⟨run, rfl⟩, rfl⟩
  cases step with
  | completed r => exact .ok ⟨driven.rests rfl, by rintro x phase ⟨⟩⟩
  | suspended x =>
    -- Only an operation touches the list, and it leaves a due answer behind.
    cases asks : asked x with
    | some o =>
      obtain ⟨w, run, lists⟩ := react_asked program steps depth asks p.1.1
      rw [beside run]
      refine .ok ⟨driven.lawful, (lawful_concat driven.lawful).mpr fun m last place' o' asks' => ?_,
        ?_, driven.lives⟩
      · obtain rfl : _ = m := Option.some.inj (driven.last.symm.trans last)
        simp only [Deed.asks?, asks, Option.map_some, Option.some.injEq, Prod.mk.injEq] at asks'
        obtain ⟨rfl, rfl⟩ := asks'
        exact ⟨rfl, lists⟩
      · intro m last
        obtain rfl : _ = m := by simpa [Shared.noted] using last
        rfl
    | none =>
      have silent : (Deed.ended place (.ok (.suspended x))).asks? = none := by
        simp only [Deed.asks?, asks, Option.map_none]
      obtain ⟨r, w, run, -, rfl | ⟨e, rfl⟩⟩ := react_other program steps depth (w := p.1.1) asks
      · rw [beside run]
        exact .ok ⟨driven.rests silent, by rintro x phase ⟨⟩; rfl⟩
      · rw [beside run]
        exact .raised (driven.rests silent)

variable (program steps depth id) in
theorem ends_proceed {c : Source (Shared L)} (fine : ∀ v, Fine live start (c v)) {place : Nat}
    (n : Nat) {d : Decision} (due : Due live start place d p) :
    Ends live start (fun move => Due live start place (.stop move))
      (proceed (kernel program steps (depth + 2)).beside.beside (table id live) (watched place c) n
        d p) := by
  induction n generalizing d p with
  | zero =>
    cases d with
    | stop move => exact .ok due
    | proceed v => exact .exhausted due.1
  | succ n ih =>
    cases d with
    | stop move => exact .ok due
    | proceed v =>
      refine (ends_watched (fine v) due).bind fun step q driven => ?_
      exact (ends_react driven).bind fun d q due => ih due

theorem ends_sealed {place : Nat} {r : Result (Move Phase)} {q : Shared L}
    {body : Phase → Value → Exec (Shared L) (Move Phase)} {phase : Phase} {u : Value}
    (run : body phase u ((Cell.nth place).set (.running phase) p) = (r, q))
    (ends : Ends live start (fun move => Due live start place (.stop move)) (r, q)) :
    Ends live start (fun _ => Rests live start)
      (Life.enter (kernel program steps (depth + 2)).beside.beside.mint (Cell.nth place) body phase
        u p) := by
  have finished {q : Shared L} (rests : Rests live start q) {w : World L} :
      Rests live start ((w, q.1.2), Function.update q.2 place .finished) :=
    ⟨rests.lawful, rests.still, rests.lives.update place (by rintro phase ⟨⟩)⟩
  cases ends with
  | @ok move _ due =>
    obtain ⟨rests, forwards⟩ := due
    rw [Life.enter_ended _ (o := .ok move) run]
    cases move with
    | suspend x next =>
      obtain rfl := forwards x next rfl
      refine .ok ⟨rests.lawful, rests.still, rests.lives.update place ?_⟩
      rintro phase ⟨⟩
      exact .inr rfl
    | complete result => exact .ok (finished rests)
  | @raised e _ rests =>
    rw [Life.enter_ended _ (o := .error e) run]
    by_cases stop : e.kind = .stopIteration
    · simp only [Life.seal, if_pos stop]
      exact .raised (finished rests)
    · simp only [Life.seal, if_neg stop]
      exact .raised (finished rests)
  | exhausted lawful =>
    rw [Life.enter_exhausted _ run]
    exact .exhausted lawful

theorem fine_drive {c : Source (Shared L)} (fine : ∀ v, Fine live start (c v)) (place : Nat)
    (v : Value) :
    Fine live start (Life.drive (kernel program steps (depth + 2)).beside.beside.mint
      (Cell.nth place) (Dispatch.advance (kernel program steps (depth + 2)).beside.beside
        (table id live) (watched place c) bound) v) := by
  intro p rests
  obtain ⟨phase, u, entry⟩ | ⟨phase, life⟩ | life := ((Cell.nth place).get p).enters_or v
  · have lives := rests.lives place phase (Life.body?_of_entry entry)
    obtain ⟨u', takes⟩ : ∃ u', Dispatch.takeUp (kernel program steps (depth + 2)).beside.beside
        phase u = (pure (.proceed u') : Exec (Shared L) Decision) := by
      rcases lives with rfl | rfl <;> exact ⟨_, rfl⟩
    let p₁ : Shared L := (Cell.nth place).set (.running phase) p
    have rests₁ : Rests live start p₁ := by
      refine ⟨rests.lawful, rests.still, rests.lives.update place ?_⟩
      rintro phase ⟨⟩
      exact lives
    have due : Due live start place (.proceed u') p₁ := ⟨rests.lawful, rests₁.recorded rfl⟩
    rw [Life.drive_entered entry]
    refine ends_sealed ?_ (ends_proceed program steps depth id fine bound due)
    rw [Dispatch.advance, takes, pure_bind]
  · rw [Life.drive_running life]
    exact .raised ⟨rests.lawful, rests.still, rests.lives⟩
  · rw [Life.drive_finished life]
    exact .ok rests

theorem fine_handled {code : Code L}
    (does : ∀ place drive v, Does drive (code place drive v)) (nesting place : Nat) (v : Value) :
    Fine live start (handled program steps depth id live bound code nesting place v) := by
  induction nesting generalizing place v with
  | zero => exact fun p rests => .exhausted rests.lawful
  | succ nesting ih => exact fine_drive (fun v => (does _ _ v).fine ih) place v

/-- Whatever a driver does, the log of its session is lawful, and it goes to the end unless the
session is exhausted. -/
theorem session_lawful {code : Code L} (does : ∀ place drive v, Does drive (code place drive v))
    {nesting : Nat} {driver : Exec (Shared L) Unit}
    (drives : Does (handled program steps depth id live bound code nesting) driver) (w : World L) :
    Lawful live w (session driver (opening w)).2.1.2 ∧
      ((session driver (opening w)).1 = .exhausted ∨
        (session driver (opening w)).2.1.2.getLast? =
          some ⟨.outside, (session driver (opening w)).2.1.1⟩) := by
  let p : Shared L := ((w, [⟨.outside, w⟩]), fun _ => .fresh .start)
  have rests : Rests live w p := by
    refine ⟨⟨rfl, List.isChain_singleton _⟩, ?_, ?_⟩
    · rintro m ⟨⟩
      rfl
    · rintro k phase ⟨⟩
      exact .inl rfl
  have opens : record .outside (opening w) = (.ok (), p) := rfl
  have ends := drives.fine (fine_handled does nesting) p rests
  -- Whether the driver comes back or raises, the session closes the log in the same way.
  have closed {q : Shared L} (rests : Rests live w q)
      (run : driver.rescue (fun _ => pure ()) p = (.ok (), q)) :
      session driver (opening w) = (.ok (), q.noted .outside) ∧
        Lawful live w (q.noted .outside).1.2 := by
    refine ⟨?_, rests.concat _⟩
    rw [session, Exec.bind_ok opens, Exec.bind_ok run]
    rfl
  rcases hrun : driver p with ⟨r, q⟩
  rw [hrun] at ends
  cases ends with
  | ok rests =>
    obtain ⟨run, lawful⟩ := closed rests (by simp only [Exec.rescue, hrun])
    rw [run]
    exact ⟨lawful, .inr List.getLast?_concat⟩
  | raised rests =>
    obtain ⟨run, lawful⟩ := closed rests (by simp only [Exec.rescue, hrun]; rfl)
    rw [run]
    exact ⟨lawful, .inr List.getLast?_concat⟩
  | exhausted lawful =>
    have run : driver.rescue (fun _ => pure ()) p = (.exhausted, q) := by
      simp only [Exec.rescue, hrun]
    rw [session, Exec.bind_ok opens, Exec.bind_exhausted run]
    exact ⟨lawful, .inl rfl⟩

end

/-! ## The lists along a log -/

section

variable {D : Nat → Prop} {live : Nat} {w w₁ w₂ : World L}

theorem Kept.trans (h : Kept D w w₁) (h' : Kept D w₁ w₂) : Kept D w w₂ :=
  ⟨h.1.trans h'.1, fun d hD hd => (h'.2 d hD (hd.trans_le h.1)).trans (h.2 d hD hd)⟩

theorem kept_set {copy : Nat} (other : ¬ D copy) (items : List Value) (w : World L) :
    Kept D w { w with lists := w.lists.set copy items } := by
  refine ⟨(Pool.next_set _ _ _).ge, fun d hD _ => Pool.get?_set_of_ne _ _ ?_⟩
  rintro rfl
  exact other hD

theorem Operation.lists_kept (o : Operation) (live : Nat) (w : World L)
    (h : w₁.lists = o.lists live w) : Kept (· ≠ live) w w₁ := by
  simp only [Kept, h]
  cases o with
  | tell message =>
    exact ⟨(Pool.next_set _ _ _).ge, fun d hd _ => Pool.get?_set_of_ne _ _ hd.symm⟩
  | listen =>
    refine ⟨?_, fun d _ hd => Pool.get?_add_of_lt _ _ hd⟩
    rw [lists, Pool.next_add]
    exact Nat.le_succ _

theorem Operation.lists_live (o : Operation) {content : List Value}
    (held : w.lists.get? live = some content) :
    (o.lists live w).get? live = some (content ++ o.told?.toList) := by
  cases o with
  | tell message =>
    rw [lists, Pool.get?_set_self held, World.list, held]
    rfl
  | listen =>
    rw [lists, Pool.get?_add_of_lt _ _ (Pool.lt_next held), held]
    simp [told?]

variable {m m' : Moment L}

/-- What follows a moment of an undisturbed log. -/
structure Follows (D : Nat → Prop) (live : Nat) (m m' : Moment L) : Prop where
  leads : m.Leads live m'
  kept : m.deed.asks? = none → Kept D m.world m'.world

theorem Follows.others (follows : Follows D live m m') :
    Kept (fun d => D d ∧ d ≠ live) m.world m'.world := by
  cases asks : m.deed.asks? with
  | none =>
    obtain ⟨grows, same⟩ := follows.kept asks
    exact ⟨grows, fun d hD => same d hD.1⟩
  | some op =>
    obtain ⟨grows, same⟩ := op.2.lists_kept live m.world (follows.leads op.1 op.2 asks).2
    exact ⟨grows, fun d hD => same d hD.2⟩

theorem Follows.comes {content : List Value} (follows : Follows D live m m') (hlive : D live)
    (held : m.world.lists.get? live = some content) :
    m'.world.lists.get? live = some (content ++ told [m]) := by
  cases asks : m.deed.asks? with
  | none =>
    rw [(follows.kept asks).2 live hlive (Pool.lt_next held), held]
    simp [told, asks]
  | some op =>
    rw [(follows.leads op.1 op.2 asks).2, op.2.lists_live held]
    cases h : op.2.told? <;> simp [told, asks, h]

/-- At each moment the live list is the first one with what has been told until then. -/
theorem live_of_chain {before after : Log L} {content : List Value} (hlive : D live)
    (chain : (before ++ m :: after).IsChain (Follows D live))
    (held : ∀ m₀ ∈ (before ++ m :: after).head?, m₀.world.lists.get? live = some content) :
    m.world.lists.get? live = some (content ++ told before) := by
  induction before generalizing content with
  | nil => simpa [told] using held m rfl
  | cons m₀ before ih =>
    obtain ⟨next, chain⟩ := List.isChain_cons.mp chain
    have held := held m₀ rfl
    have both : told (m₀ :: before) = told [m₀] ++ told before := List.filterMap_append (l := [m₀])
    rw [ih chain fun m₁ first => (next m₁ first).comes hlive held, List.append_assoc, both]

instance : IsTrans (World L) (Kept D) := ⟨fun _ _ _ => Kept.trans⟩

theorem others_of_chain {log : Log L} (chain : log.IsChain (Follows D live)) :
    log.Pairwise fun m m' => Kept (fun d => D d ∧ d ≠ live) m.world m'.world := by
  refine List.pairwise_map.mp (List.IsChain.pairwise ?_)
  exact (List.isChain_map _).mpr (chain.imp fun _ _ => Follows.others)

/-- How an operation is answered after `m`, when `content` has been told `before`. -/
inductive Answered (D : Nat → Prop) (content : List Value) (before : Log L) (m m' : Moment L)
    (after : Log L) (place : Nat) : Operation → Prop where
  | tell {message} (deed : m'.deed = .begun place .nil) :
      Answered D content before m m' after place (.tell message)
  /-- The copy is a new list. Only a change of the copy itself is seen in it. -/
  | listen {copy} (deed : m'.deed = .begun place (.list copy))
      (fresh : ∀ m₀ ∈ before ++ [m], m₀.world.lists.get? copy = none)
      (copied : m'.world.lists.get? copy = some content)
      (kept : D copy → ∀ m₁ ∈ after, m₁.world.lists.get? copy = some content) :
      Answered D content before m m' after place .listen

theorem answered_of_chain {before after : Log L} {content : List Value} {place : Nat}
    {o : Operation}
    (chain : (before ++ m :: m' :: after).IsChain (Follows D live))
    (held : m.world.lists.get? live = some content) (asks : m.deed.asks? = some (place, o)) :
    Answered D content before m m' after place o := by
  have follows : Follows D live m m' :=
    (List.isChain_cons_cons.mp (List.isChain_append.mp chain).2.1).1
  have others := others_of_chain chain
  obtain ⟨-, later, earlier⟩ := List.pairwise_append.mp others
  obtain ⟨deed, lists⟩ := follows.leads place o asks
  cases o with
  | tell message => exact .tell deed
  | listen =>
    have copied : m'.world.lists.get? m.world.lists.next = some content := by
      rw [lists, Operation.lists, Pool.get?_next, World.list, held]
      rfl
    refine .listen deed (fun m₀ h₀ => Pool.get?_of_next_le ?_) copied fun hD m₁ h₁ => ?_
    · rcases List.mem_append.mp h₀ with h₀ | h₀
      · exact (earlier m₀ h₀ m (List.mem_cons_self ..)).1
      · obtain rfl := List.mem_singleton.mp h₀
        exact le_rfl
    · have apart : m.world.lists.next ≠ live := (Pool.lt_next held).ne'
      have kept := (List.pairwise_cons.mp (List.pairwise_cons.mp later).2).1 m₁ h₁
      rw [kept.2 _ ⟨hD, apart⟩ (Pool.lt_next copied), copied]

end

/-! ## The handlers -/

/-- The handlers work on a new list without messages. Reading their table gives the table of that
list. -/
theorem writerHandlers_eq (w : World L) :
    ∃ n t w', writerHandlers w = (.ok (.tuple n [.dict t, .list w.lists.next]), w') ∧
      w'.lists.get? w.lists.next = some [] ∧
      (∀ d < w.lists.next, w'.lists.get? d = w.lists.get? d) ∧
      readTable (.dict t) w' = (.ok (table w.nextId w.lists.next), w') := by
  let operations : Assoc Value :=
    [(.str "tell", .native w.nextId (.writerTell w.lists.next)),
      (.str "listen", .native (w.nextId + 1) (.writerListen w.lists.next))]
  let p₁ := (w.dicts.add operations).2
  let p₂ := (p₁.add [(.str "writer", .dict w.dicts.next)]).2
  let w' : World L :=
    { w with lists := (w.lists.add []).2, dicts := p₂, nextId := w.nextId + 2 + 1 }
  have next₁ : p₁.next = w.dicts.next + 1 := Pool.next_add _ _
  refine ⟨w.nextId + 2, p₁.next, w', rfl, Pool.get?_next _ _,
    fun d hd => Pool.get?_add_of_lt _ _ hd, ?_⟩
  have outer : w'.mapping? (.dict p₁.next) = some [(.str "writer", .dict w.dicts.next)] :=
    mapping?_dict (Pool.get?_add p₁ _)
  have inner : w'.mapping? (.dict w.dicts.next) = some operations :=
    mapping?_dict ((Pool.get?_add_of_lt _ _ (by omega)).trans (Pool.get?_add w.dicts _))
  rw [readTable, Exec.bind_ok (read_mapping outer)]
  simp only [readEntries]
  rw [Exec.bind_ok (read_mapping inner)]
  rfl

/-- Computations that are handled with the table of one live list keep it exactly, in whatever order
they are driven, also by one another. The handlers start with a new list without messages, and they
answer every operation. In the log of a session the live list is at each moment what has been told
until then, in this order. What is told is answered with nothing, and whoever listens gets a new
list of what has been told so far. The handlers never change it. All this only takes that nobody but
the handlers changes the live list: `D` may be without the lists that a session writes into. An
operation that is not answered in the log is the last thing there, and the run is exhausted. -/
theorem handlers_keep_messages (program : Program L) (steps depth bound : Nat) :
    (∀ w : World L,
      ∃ n t w', writerHandlers w = (.ok (.tuple n [.dict t, .list w.lists.next]), w') ∧
        w'.lists.get? w.lists.next = some [] ∧
        (∀ d < w.lists.next, w'.lists.get? d = w.lists.get? d) ∧
        readTable (.dict t) w' = (.ok (table w.nextId w.lists.next), w')) ∧
    (∀ (id live : Nat) (x : Value) (o : Operation) (w : World L), asked x = some o →
      ∃ w', react (kernel program steps (depth + 2)) (table id live) (.suspended x) w =
          (.ok (.proceed (o.answer w)), w') ∧
        w'.lists = o.lists live w ∧ Kept (· ≠ live) w w') ∧
    (∀ (D : Nat → Prop) (copy : Nat) (items : List Value) (w : World L), ¬ D copy →
      Kept D w { w with lists := w.lists.set copy items }) ∧
    ∀ (id live : Nat) (D : Nat → Prop) (code : Code L) (nesting : Nat)
      (driver : Exec (Shared L) Unit) (w : World L) (content : List Value), D live →
      (∀ place drive v, Does drive (code place drive v)) →
      Does (handled program steps depth id live bound code nesting) driver →
      w.lists.get? live = some content →
      let run := session driver (opening w)
      let log := run.2.1.2
      Undisturbed D log →
      log.head? = some ⟨.outside, w⟩ ∧
      (run.1 = .exhausted ∨ log.getLast? = some ⟨.outside, run.2.1.1⟩) ∧
      ∀ before m after, log = before ++ m :: after →
        m.world.lists.get? live = some (content ++ told before) ∧
        (∀ d, D d → d ≠ live → d < m.world.lists.next →
          ∀ m' ∈ after, m'.world.lists.get? d = m.world.lists.get? d) ∧
        ∀ place o, m.deed.asks? = some (place, o) →
          (after = [] ∧ run.1 = .exhausted) ∨
          ∃ m' rest, after = m' :: rest ∧
            Answered D (content ++ told before) before m m' rest place o := by
  refine ⟨writerHandlers_eq, fun id live x o w asks => ?_, fun _ _ items w other =>
    kept_set other items w, ?_⟩
  · obtain ⟨w', run, lists⟩ := react_asked program steps depth asks w
    exact ⟨w', run, lists, o.lists_kept live w lists⟩
  intro id live D code nesting driver w content hlive does drives held run log undisturbed
  obtain ⟨lawful, complete⟩ : Lawful live w log ∧ _ := session_lawful does drives w
  -- The handled computations keep to the list, and so does everybody else by assumption. Both are
  -- properties of two neighbouring moments.
  have chain : log.IsChain (Follows D live) :=
    List.isChain_iff_forall_rel_of_append_cons_cons.mpr fun _ _ _ _ parts =>
      ⟨List.isChain_iff_forall_rel_of_append_cons_cons.mp lawful.chain parts,
        List.isChain_iff_forall_rel_of_append_cons_cons.mp undisturbed parts⟩
  have first : ∀ m₀ ∈ log.head?, m₀.world.lists.get? live = some content := by
    intro m₀ h₀
    obtain rfl : _ = m₀ := Option.some.inj (lawful.first.symm.trans h₀)
    exact held
  refine ⟨lawful.first, complete, fun before m after hlog => ?_⟩
  rw [hlog] at chain first
  have comes := live_of_chain hlive chain first
  have others := (List.pairwise_cons.mp (List.pairwise_append.mp (others_of_chain chain)).2.1).1
  refine ⟨comes, fun d hD apart hd m' h' => (others m' h').2 d ⟨hD, apart⟩ hd, ?_⟩
  intro place o asks
  cases after with
  | nil =>
    refine .inl ⟨rfl, complete.resolve_right fun last => ?_⟩
    have last : log.getLast? = some ⟨.outside, run.2.1.1⟩ := last
    rw [hlog, List.getLast?_concat] at last
    cases last
    cases asks
  | cons m' rest => exact .inr ⟨m', rest, rfl, answered_of_chain chain comes asks⟩

namespace SmallMessages

def language : Language := ⟨Unit, Unit, Unit⟩

def program : Program language where
  call _ _ _ _ := return .nil
  advance _ _ _ _ := return .complete .nil
  delegate? _ := none
  names _ _ := false
  lost _ _ := []

def operation (name : String) (parameters : List Value) : Value :=
  .action 0 (.str "writer") (.str name) 0 parameters

/-- Whoever gets a list writes into it, and then has the computation at the place 0 tell something.
-/
def code : Code language := fun _ drive v =>
  match v with
  | .list a => do
    (append a (.str "mine")).beside.beside
    drive 0 (.str "tell")
  | .str "tell" => return .suspended (operation "tell" [.str "told"])
  | .str "listen" => return .suspended (operation "listen" [])
  | _ => return .suspended (operation "other" [])

def driver (drive : Nat → Source (Shared language)) : Exec (Shared language) Unit := do
  let _ ← drive 0 .nil
  let _ ← drive 1 .nil
  let _ ← drive 1 (.str "listen")

def start : World language := { memory := (), lists := ⟨#[[.str "given"]]⟩ }

def log : Log language :=
  (session (driver (handled program 1 0 0 0 3 code 2)) (opening start)).2.1.2

end SmallMessages

open SmallMessages in
/-- A computation listens and writes into its copy. Then it drives another one, which tells. -/
theorem handlers_keep_messages_small :
    ∃ m ∈ SmallMessages.log.getLast?,
      m.world.lists.get? 0 = some [.str "given", .str "told"] ∧
      m.world.lists.get? 1 = some [.str "given", .str "mine"] := by
  have does (place : Nat) (drive : Nat → Source (Shared language)) (v : Value) :
      Does drive (code place drive v) := by
    unfold code
    split
    · exact .bind (.alone _) fun _ => .drives _ _
    · exact .alone (pure _)
    · exact .alone (pure _)
    · exact .alone (pure _)
  have drives (drive : Nat → Source (Shared language)) : Does drive (driver drive) :=
    .bind (.drives _ _) fun _ => .bind (.drives _ _) fun _ => .bind (.drives _ _) fun _ =>
      .alone (pure ())
  let seen (m : Moment language) : Option (Nat × Operation) × Pool (List Value) :=
    (m.deed.asks?, m.world.lists)
  have trail : log.map seen =
      List.replicate 6 (none, ⟨#[[.str "given"]]⟩) ++
      [(some (1, .listen), ⟨#[[.str "given"]]⟩), (none, ⟨#[[.str "given"], [.str "given"]]⟩),
        (none, ⟨#[[.str "given"], [.str "given", .str "mine"]]⟩),
        (some (0, .tell (.str "told")), ⟨#[[.str "given"], [.str "given", .str "mine"]]⟩)] ++
      List.replicate 4
        (none, ⟨#[[.str "given", .str "told"], [.str "given", .str "mine"]]⟩) := by
    rfl
  have undisturbed : Undisturbed (· = 0) log := by
    have chain : (log.map seen).IsChain fun a b =>
        a.1 = none → a.2.next ≤ b.2.next ∧ b.2.get? 0 = a.2.get? 0 := by
      rw [trail]
      simp [List.replicate_succ, Pool.next, Pool.get?]
    refine ((List.isChain_map seen).mp chain).imp fun m m' kept silent => ?_
    obtain ⟨grows, same⟩ := kept silent
    exact ⟨grows, by rintro d rfl _; exact same⟩
  have keeps := (handlers_keep_messages program 1 0 3).2.2.2 0 0 (· = 0) code 2 (driver _) start
    [.str "given"] rfl does (drives _) rfl undisturbed
  obtain ⟨m, hm⟩ : ∃ m, m ∈ log.getLast? := ⟨_, rfl⟩
  have hlog : log = log.dropLast ++ m :: [] := by rw [List.dropLast_append_getLast? m hm]
  have told : told log.dropLast = [.str "told"] := by rfl
  refine ⟨m, hm, (keeps.2.2 _ m [] hlog).1.trans (by rw [told]; rfl), ?_⟩
  have last : (log.map seen).getLast? = some (seen m) := by
    rw [List.getLast?_map, Option.mem_def.mp hm]
    rfl
  rw [trail] at last
  obtain ⟨-, lists⟩ := Prod.mk.inj (Option.some.inj last)
  rw [← lists]
  rfl

end OneShot.World.Writer
