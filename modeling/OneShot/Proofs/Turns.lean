import OneShot.Proofs.Past
import OneShot.Proofs.Unwinding

/-!
# Turns of the driver

What a session with a stack has come to, and what came after an act of its lowest computation. When
all is over, nothing can be driven any more.
-/

namespace OneShot

open Protocol Exec
open Dispatch (Phase handling)

variable {W : Type} {host : Host W} {tokens : W → Nat → Option Token} {table : Table} {c : Source W}
  {K : W × Log W → Prop} {bound : Nat}

/-! ## Turns -/

/-- What there is of drives of computations that are over. -/
def idleActs (turns : List (Nat × Value)) : List (Nat × Act) :=
  turns.flatMap fun t => [(t.1, .sent t.2), (t.1, .gave (.ok (.completed .nil)))]

/-- The computations up to a place are over, and some of them may have been driven again. -/
structure Closed (table : Table) (K : W × Log W → Prop) (place : Nat) (sight : Sight)
    (p : Stacked W) : Prop where
  kept : K p.1.1
  whole : p.log.Whole
  final : Final sight
  lowest : p.1.2 = .finished
  shells : ∀ k < place, p.2 k = .finished
  ended : ∃ log idle, ∃ values : List Value, p.log = log ++ idle ∧
    Ended table place sight log ∧
    idle.map Mark.deed = idleActs (values.map (place, ·))

theorem Over.closed {place : Nat} {sight : Sight} {p : Stacked W}
    (isOver : Over table K place sight p) : Closed table K place sight p :=
  ⟨isOver.kept, isOver.whole, isOver.final, isOver.lowest, isOver.shells, p.log, [], [],
    (List.append_nil _).symm, isOver.ended, rfl⟩

theorem stack_over {place : Nat} {p : Stacked W} (lowest : p.1.2 = .finished)
    (shells : ∀ k < place, p.2 k = .finished) (v : Value) :
    stack host tokens table c bound place v p = (.of (.ok (.completed .nil)),
      (p.mark place (.sent v)).mark place (.gave (.ok (.completed .nil)))) := by
  cases place with
  | zero =>
    refine witnessed_of (Exec.beside_eq.mpr ⟨?_, rfl⟩)
    exact Life.drive_finished lowest
  | succ place =>
    refine witnessed_of ?_
    exact Life.drive_finished (shells place (Nat.lt_succ_self place))

/-- Nothing is being driven at the end of the log. -/
def Paused (log : Log W) : Prop := ∀ m ∈ log.getLast?, ¬ m.act.Inner

theorem prompt_start (w : W) : Prompt tokens (w, []) := ⟨fun _ h => by simp at h, .nil⟩

theorem Prompt.change {w : W} {log : Log W} (prompt : Prompt tokens (w, log))
    (paused : Paused log) (w' : W) : Prompt tokens (w', log) :=
  ⟨fun m hm inner => absurd inner (paused m hm), prompt.reads⟩

theorem paused_mark (p : Stacked W) (place : Nat) (sight : Sight) :
    Paused (p.mark place (.gave sight)).log := by
  intro m hm inner
  obtain rfl : _ = m := by simpa [Stacked.log, Stacked.mark] using hm
  cases inner.2

theorem stack_gives {place : Nat} {v : Value} {p q : Stacked W} {sight : Sight}
    (h : stack host tokens table c bound place v p = (.of sight, q)) : Paused q.log := by
  have gives {source : Source (Stacked W)}
      (h : witnessed place source v p = (.of sight, q)) : Paused q.log := by
    rcases hs : source v (p.mark place (.sent v)) with ⟨r, q₁⟩
    have ended (sight' : Sight) (hr : r = .of sight') : Paused q.log := by
      rw [hr] at hs
      obtain ⟨-, rfl⟩ := Prod.mk.inj ((witnessed_of hs).symm.trans h)
      exact paused_mark _ _ _
    cases r with
    | ok step => exact ended (.ok step) rfl
    | raised e => exact ended (.error e) rfl
    | exhausted =>
      have stops := congrArg Prod.fst ((witnessed_exhausted hs).symm.trans h)
      exact absurd stops.symm (Result.of_ne_exhausted sight)
  cases place with
  | zero => exact gives h
  | succ place => exact gives h

theorem takeTurns_pauses {turns : List (Turn W)} {p q : Stacked W} {r : Result (List Sight)}
    (paused : Paused p.log)
    (run : takeTurns (stack host tokens table c bound) Stacked.change turns p = (r, q)) :
    r = .exhausted ∨ Paused q.log := by
  induction turns generalizing p r with
  | nil =>
    obtain ⟨-, rfl⟩ := Prod.mk.inj run
    exact Or.inr paused
  | cons t turns ih =>
    rcases hdrive : stack host tokens table c bound t.place t.value (p.change t.change) with
      ⟨r₁, q₁⟩
    have goes (sight : Sight) (hr : r₁ = .of sight) : r = .exhausted ∨ Paused q.log := by
      rw [hr] at hdrive
      rcases hrest : takeTurns (stack host tokens table c bound) Stacked.change turns q₁ with
        ⟨r', q'⟩
      obtain ⟨rfl, rfl⟩ := Prod.mk.inj ((takeTurns_cons hdrive hrest).symm.trans run)
      rcases ih (stack_gives hdrive) hrest with rfl | paused'
      · exact Or.inl rfl
      · exact Or.inr paused'
    cases r₁ with
    | ok step => exact goes (.ok step) rfl
    | raised e => exact goes (.error e) rfl
    | exhausted => exact Or.inl (Prod.mk.inj ((takeTurns_exhausted hdrive).symm.trans run)).1.symm

section

variable (stable : Stable host tokens c K)

include stable

theorem Closed.again {place : Nat} {sight : Sight} {p : Stacked W}
    (closed : Closed table K place sight p) (v : Value) :
    Closed table K place sight
      ((p.mark place (.sent v)).mark place (.gave (.ok (.completed .nil)))) := by
  obtain ⟨log, idle, values, hlog, ended, hidle⟩ := closed.ended
  have kept := stable.gave place (.ok (.completed .nil)) _ _
    (stable.sent place v _ _ closed.kept)
  refine ⟨kept, ?_, closed.final, closed.lowest, closed.shells, log,
    idle ++ [⟨place, .sent v, p.1.1.1⟩, ⟨place, .gave (.ok (.completed .nil)), p.1.1.1⟩],
    values ++ [v], ?_, ended, ?_⟩
  · show Log.Whole (p.log ++ [_] ++ [_])
    rw [List.append_assoc]
    by_cases h : place = 0
    · subst h
      exact closed.whole.drive (List.forall_mem_singleton.mpr rfl) _ _
    · exact closed.whole.around (by simp [h])
  · show p.log ++ [_] ++ [_] = _
    rw [hlog]
    simp only [List.append_assoc, List.cons_append, List.nil_append]
    rfl
  · rw [List.map_append, hidle, idleActs, idleActs, List.map_append, List.flatMap_append]
    rfl

theorem takeTurns_reaches (lawful : host.Lawful tokens) {place : Nat} {turns : List (Turn W)}
    (places : ∀ t ∈ turns, t.place = place)
    (changes : ∀ t ∈ turns, ∀ w log, Paused log → K (w, log) → K (t.change w, log))
    {p q : Stacked W} {r : Result (List Sight)} (paused : Paused p.log)
    (h : Live table K p ∨ ∃ sight, Closed table K place sight p)
    (run : takeTurns (stack host tokens table c bound) Stacked.change turns p = (r, q)) :
    r = .exhausted ∧ Stopped table K q ∨
      ∃ seen, r = .ok seen ∧ (Live table K q ∨ ∃ sight, Closed table K place sight q) := by
  induction turns generalizing p r with
  | nil =>
    obtain ⟨rfl, rfl⟩ := Prod.mk.inj run
    exact Or.inr ⟨[], rfl, h⟩
  | cons t turns ih =>
    obtain ⟨rfl, places⟩ := List.forall_mem_cons.mp places
    obtain ⟨change, changes⟩ := List.forall_mem_cons.mp changes
    have rest (sight : Sight) (q₁ : Stacked W)
        (drive : stack host tokens table c bound t.place t.value (p.change t.change) =
          (.of sight, q₁))
        (h : Live table K q₁ ∨ ∃ sight, Closed table K t.place sight q₁) :
        r = .exhausted ∧ Stopped table K q ∨
          ∃ seen, r = .ok seen ∧ (Live table K q ∨ ∃ sight, Closed table K t.place sight q) := by
      rcases hrest : takeTurns (stack host tokens table c bound) Stacked.change turns q₁ with
        ⟨r', q'⟩
      obtain ⟨rfl, rfl⟩ := Prod.mk.inj ((takeTurns_cons drive hrest).symm.trans run)
      rcases ih places changes (stack_gives drive) h hrest with ⟨rfl, stopped⟩ | ⟨seen, rfl, h⟩
      · exact Or.inl ⟨rfl, stopped⟩
      · exact Or.inr ⟨_, rfl, h⟩
    rcases h with live | ⟨sight, closed⟩
    -- The change between two drives is the only one that services and source do not make.
    · have live : Live table K (p.change t.change) :=
        ⟨change _ _ paused live.kept, live.whole, live.waits⟩
      rcases hdrive : stack host tokens table c bound t.place t.value (p.change t.change) with
        ⟨r₁, q₁⟩
      rcases passes_stack stable lawful t.place t.value _ _ _ live hdrive with
        ⟨rfl, stopped⟩ | ⟨sight, rfl, ended⟩
      · obtain ⟨rfl, rfl⟩ := Prod.mk.inj ((takeTurns_exhausted hdrive).symm.trans run)
        exact Or.inl ⟨rfl, stopped⟩
      · exact rest sight q₁ hdrive (ended.imp_right fun isOver => ⟨sight, isOver.closed⟩)
    · have closed : Closed table K t.place sight (p.change t.change) :=
        ⟨change _ _ paused closed.kept, closed.whole, closed.final, closed.lowest, closed.shells,
          closed.ended⟩
      exact rest _ _ (stack_over closed.lowest closed.shells t.value)
        (Or.inr ⟨sight, closed.again stable t.value⟩)

end

/-- Every later drive of any of the computations that are over completes with nothing, and does
nothing. The world is as the rest of the program changes it. -/
theorem takeTurns_over {place : Nat} {later : List (Turn W)} (places : ∀ t ∈ later, t.place ≤ place)
    {p : Stacked W} (lowest : p.1.2 = .finished) (shells : ∀ k < place, p.2 k = .finished) :
    ∃ marks, takeTurns (stack host tokens table c bound) Stacked.change later p =
        (.ok (later.map fun _ => .ok (.completed .nil)),
          (((later.foldl (fun w t => t.change w) p.1.1.1, p.log ++ marks), p.1.2), p.2)) ∧
      marks.map Mark.deed = idleActs (later.map fun t => (t.place, t.value)) := by
  induction later generalizing p with
  | nil => exact ⟨[], by rw [List.append_nil]; rfl, rfl⟩
  | cons t later ih =>
    obtain ⟨ht, places⟩ := List.forall_mem_cons.mp places
    have drive := @stack_over W host tokens table c bound t.place (p.change t.change) lowest
      (fun k hk => shells k (Nat.lt_of_lt_of_le hk ht)) t.value
    obtain ⟨marks, rest, hmarks⟩ := @ih places
      (((p.change t.change).mark t.place (.sent t.value)).mark t.place
        (.gave (.ok (.completed .nil)))) lowest shells
    refine ⟨⟨t.place, .sent t.value, t.change p.1.1.1⟩ ::
      ⟨t.place, .gave (.ok (.completed .nil)), t.change p.1.1.1⟩ :: marks, ?_, ?_⟩
    · rw [takeTurns_cons drive rest]
      simp [Result.map, Stacked.mark, Stacked.change, Stacked.log]
    · rw [List.map_cons, List.map_cons, hmarks]
      rfl

/-! ## What comes after an act -/

/-- After an act all is over: the same end is at every place, and nothing is driven again but what
is over. -/
structure Shut (place : Nat) (sight : Sight) (after : Log W) (p : Stacked W) : Prop where
  lowest : p.1.2 = .finished
  shells : ∀ k < place, p.2 k = .finished
  marks : ∃ ends idle, ∃ values : List Value, after = ends ++ idle ∧ Ends place sight ends ∧
    idle.map Mark.deed = idleActs (values.map (place, ·))

/-- How the lowest computation goes on from a stage. -/
inductive Onward (table : Table) (place : Nat) (p : Stacked W) (s : Stage) (after : Log W) :
    Prop where
  | goes {acts s'} (part : acts <+: after.actsAt 0) (follows : Follows table s acts s')
      (idle : s'.Idle) (going : s' ≠ .over)
  | ends {sight rest tail s'} (parts : after = rest ++ tail)
      (quiet : ∀ m ∈ rest, m.place = 0 ∧ m.act.gave? = none)
      (follows : Follows table s (rest.map Mark.act) s')
      (gave : Allowed table s' (.gave sight) .over) (shut : Shut place sight tail p)

theorem Log.split {first last before after : Log W} {m : Mark W}
    (h : first ++ last = before ++ m :: after) :
    (∃ rest, first = before ++ m :: rest ∧ after = rest ++ last) ∨
      ∃ rest, before = first ++ rest ∧ last = rest ++ m :: after := by
  rcases List.append_eq_append_iff.mp h with ⟨rest, rfl, hlast⟩ | ⟨rest, rfl, hafter⟩
  · exact Or.inr ⟨rest, rfl, hlast⟩
  · cases rest with
    | nil => exact Or.inr ⟨[], by simp, hafter.symm⟩
    | cons m' rest =>
      obtain ⟨rfl, rfl⟩ := List.cons.inj hafter
      exact Or.inl ⟨rest, rfl, rfl⟩

theorem Shut.outer {place : Nat} {sight : Sight} {after : Log W} {p : Stacked W}
    (shut : Shut place sight after p) {m : Mark W} (hm : m ∈ after) : ¬ m.act.Inner := by
  obtain ⟨ends, idle, values, rfl, hends, hidle⟩ := shut.marks
  intro inner
  rcases List.mem_append.mp hm with hm | hm
  · have h : m.deed ∈ ends.map Mark.deed :=
      List.mem_map_of_mem hm
    rw [hends] at h
    obtain ⟨k, -, hk⟩ := List.mem_map.mp h
    obtain ⟨-, hact⟩ := Prod.mk.inj hk
    rw [← hact] at inner
    cases inner.2
  · have h : m.deed ∈ idle.map Mark.deed :=
      List.mem_map_of_mem hm
    rw [hidle] at h
    obtain ⟨t, -, ht⟩ := List.mem_flatMap.mp h
    rcases List.mem_pair.mp ht with ht | ht
    · obtain ⟨-, hact⟩ := Prod.mk.inj ht
      rw [hact] at inner
      cases inner.1
    · obtain ⟨-, hact⟩ := Prod.mk.inj ht
      rw [hact] at inner
      cases inner.2

theorem Shut.quiet {place : Nat} {sight : Sight} {after : Log W} {p : Stacked W}
    (shut : Shut place sight after p) : ∀ m ∈ after, m.act.runsCode = false := by
  intro m hm
  have outer := shut.outer hm
  cases hact : m.act with
  | advanced v r => exact absurd (hact ▸ ⟨rfl, rfl⟩) outer
  | called f arguments r => exact absurd (hact ▸ ⟨rfl, rfl⟩) outer
  | drove n v r => exact absurd (hact ▸ ⟨rfl, rfl⟩) outer
  | _ => rfl

theorem onward_of_follows {place : Nat} {p : Stacked W} {before after rest : Log W} {m : Mark W}
    {s : Stage} (hm : m.place = 0) (part : rest.actsAt 0 <+: after.actsAt 0)
    (follows : Follows table (.waits .start) (Log.actsAt 0 (before ++ m :: rest)) s)
    (idle : s.Idle) (going : s ≠ .over) :
    ∃ s₀ s₁, Follows table (.waits .start) (before.actsAt 0) s₀ ∧ Allowed table s₀ m.act s₁ ∧
      Onward table place p s₁ after := by
  rw [Log.actsAt_append, ← hm, Log.actsAt_cons_self, hm] at follows
  obtain ⟨s₀, first, follows⟩ := follows_append.mp follows
  obtain ⟨s₁, allowed, onward⟩ := follows_cons.mp follows
  exact ⟨s₀, s₁, first, allowed, .goes part onward idle going⟩

theorem onward_of_reaches {place : Nat} {p : Stacked W}
    (h : Stopped table K p ∨ ∃ sight, Closed table K place sight p) {before after : Log W}
    {m : Mark W} (hlog : p.log = before ++ m :: after) (hm : m.place = 0) (inner : m.act.Inner) :
    ∃ s₀ s₁, Follows table (.waits .start) (before.actsAt 0) s₀ ∧ Allowed table s₀ m.act s₁ ∧
      Onward table place p s₁ after := by
  rcases h with stopped | ⟨sight, closed⟩
  · obtain ⟨s, follows, idle, going⟩ := stopped.follows
    rw [hlog] at follows
    exact onward_of_follows hm (List.prefix_refl _) follows idle going
  · obtain ⟨log, idle, values, hp, ⟨first, drive, ends, phase, s, rfl, follows, quiet, led, gave,
      hends⟩, hidle⟩ := closed.ended
    have shut : Shut place sight (ends ++ idle) p :=
      ⟨closed.lowest, closed.shells, ends, idle, values, rfl, hends, hidle⟩
    rw [hlog, List.append_assoc, List.append_assoc] at hp
    -- The act is before the last drive, or in it. The ends and what comes later are no such acts.
    rcases Log.split hp.symm with ⟨rest, rfl, rfl⟩ | ⟨rest, rfl, hrest⟩
    · refine onward_of_follows hm ?_ follows .of_between (by simp)
      rw [Log.actsAt_append]
      exact List.prefix_append _ _
    · rcases Log.split hrest with ⟨rest', rfl, rfl⟩ | ⟨rest', -, htail⟩
      · rw [List.map_append] at led
        obtain ⟨s₀, led, onward⟩ := follows_append.mp led
        obtain ⟨s₁, allowed, onward⟩ := follows_cons.mp onward
        refine ⟨s₀, s₁, ?_, allowed, .ends rfl ?_ onward gave shut⟩
        · have all (m : Mark W) (hm : m ∈ rest) : m.place = 0 :=
            (quiet m (List.mem_append_left _ hm)).1
          rw [Log.actsAt_append, Log.actsAt_of_all all]
          exact follows.trans led
        · intro m' hm'
          exact quiet m' (List.mem_append_right _ (List.mem_cons_of_mem m hm'))
      · refine absurd inner (shut.outer ?_)
        rw [htail]
        exact List.mem_append_right _ List.mem_cons_self

theorem follows_idle {place : Nat} {values : List Value} {idle : Log W}
    (h : idle.map Mark.deed = idleActs (values.map (place, ·))) :
    Follows table .over (idle.actsAt 0) .over := by
  rw [Log.actsAt_eq_deeds, h]
  clear h
  induction values with
  | nil => exact .nil
  | cons v values ih =>
    simp only [idleActs, List.map_cons, List.flatMap_cons, List.filter_append, List.map_append]
    refine .trans ?_ ih
    by_cases hplace : place = 0
    · subst hplace
      exact .cons .idle (.one .complete)
    · simp only [List.filter_cons, hplace, decide_false, List.filter_nil]
      exact .nil

theorem actsAt_ends {place : Nat} {sight : Sight} {ends : Log W} (h : Ends place sight ends) :
    ends.actsAt 0 = [.gave sight] := by
  rw [Log.actsAt_eq_deeds, h, List.range_succ_eq_map]
  simp

theorem Closed.follows {place : Nat} {sight : Sight} {p : Stacked W}
    (closed : Closed table K place sight p) :
    Follows table (.waits .start) (p.log.actsAt 0) .over := by
  obtain ⟨log, idle, values, hp, ⟨first, drive, ends, phase, s, rfl, follows, quiet, led, gave,
    hends⟩, hidle⟩ := closed.ended
  rw [hp, Log.actsAt_append, Log.actsAt_append, Log.actsAt_append, actsAt_ends hends,
    Log.actsAt_of_all fun m hm => (quiet m hm).1]
  exact (follows.trans (led.trans (.one gave))).trans (follows_idle hidle)

/-- A fresh stack. Its source stands in the world. -/
def Stacked.fresh (w : W) (layers : List Layer) : Stacked W :=
  (((w, []), .fresh .start), Layer.lives layers)

theorem paused_fresh (w : W) (layers : List Layer) : Paused (Stacked.fresh w layers).log := by
  intro m hm
  simp [Stacked.fresh, Stacked.log] at hm

/-- What a session says about each act of the lowest computation in a drive. -/
structure Session (table : Table) (K : W × Log W → Prop) (place : Nat) (p : Stacked W) : Prop where
  kept : K p.1.1
  unbroken : p.log.IsChain Mark.Leads
  follows : ∃ s, Follows table (.waits .start) (p.log.actsAt 0) s ∧ s.Idle
  onward : ∀ {before after : Log W} {m : Mark W}, p.log = before ++ m :: after → m.place = 0 →
    m.act.Inner →
    ∃ s₀ s₁, Follows table (.waits .start) (before.actsAt 0) s₀ ∧ Allowed table s₀ m.act s₁ ∧
      Onward table place p s₁ after

theorem session_of_run (stable : Stable host tokens c K) (lawful : host.Lawful tokens)
    {place : Nat} {turns : List (Turn W)} (places : ∀ t ∈ turns, t.place = place)
    (changes : ∀ t ∈ turns, ∀ w log, Paused log → K (w, log) → K (t.change w, log)) {w : W}
    {layers : List Layer} (start : K (w, [])) {q : Stacked W} {r : Result (List Sight)}
    (run : takeTurns (stack host tokens table c bound) Stacked.change turns (.fresh w layers) =
      (r, q)) : Session table K place q := by
  have live : Live table K (.fresh w layers) := ⟨start, Log.whole_nil, .start, .nil, .fresh⟩
  have reached : Stopped table K q ∨ ∃ sight, Closed table K place sight q := by
    rcases takeTurns_reaches stable lawful places changes (paused_fresh w layers) (Or.inl live) run
      with ⟨-, stopped⟩ | ⟨seen, -, h⟩
    · exact Or.inl stopped
    · exact h.imp_left Live.stops
  refine ⟨?_, ?_, ?_, fun hlog hm inner => onward_of_reaches reached hlog hm inner⟩
  · rcases reached with stopped | ⟨sight, closed⟩
    · exact stopped.kept
    · exact closed.kept
  · rcases reached with stopped | ⟨sight, closed⟩
    · exact stopped.unbroken
    · exact closed.whole.unbroken
  · rcases reached with stopped | ⟨sight, closed⟩
    · obtain ⟨s, follows, idle, -⟩ := stopped.follows
      exact ⟨s, follows, idle⟩
    · exact ⟨_, closed.follows, Or.inl (Or.inr rfl)⟩

theorem Session.leads {place : Nat} {p : Stacked W} (session : Session table K place p)
    {before after : Log W} {m : Mark W} (hlog : p.log = before ++ m :: after) :
    (m :: after).IsChain Mark.Leads := by
  have unbroken := session.unbroken
  rw [hlog] at unbroken
  exact unbroken.right_of_append

/-! ## How it goes on -/

section

variable {place : Nat} {p : Stacked W} {s : Stage} {after : Log W}

theorem Onward.next (onward : Onward table place p s after) {m : Mark W}
    (leads : (m :: after).IsChain Mark.Leads) (hm : m.place = 0) (inner : m.act.Inner)
    (busy : ¬ s.Idle) (gives : ∀ sight s', ¬ Allowed table s (.gave sight) s') :
    ∃ m' rest s', after = m' :: rest ∧ m'.place = 0 ∧ Allowed table s m'.act s' ∧
      Onward table place p s' rest := by
  cases onward with
  | @goes acts s' part follows idle going =>
    cases follows with
    | nil => exact absurd idle busy
    | @cons _ a s₁ acts _ allowed follows =>
      cases after with
      | nil => simp at part
      | cons m' rest =>
        have hm' : m'.place = 0 := (List.isChain_cons_cons.mp leads).1 hm inner.2
        rw [← hm', Log.actsAt_cons_self, hm'] at part
        obtain ⟨rfl, onward⟩ := List.cons_prefix_cons.mp part
        exact ⟨m', rest, s₁, rfl, hm', allowed, .goes onward follows idle going⟩
  | @ends sight rest tail s' parts quiet follows gave shut =>
    subst parts
    cases rest with
    | nil =>
      cases follows
      exact absurd gave (gives sight _)
    | cons m' rest =>
      obtain ⟨s₁, allowed, follows⟩ := follows_cons.mp follows
      obtain ⟨⟨hm', -⟩, still⟩ := List.forall_mem_cons.mp quiet
      exact ⟨m', rest ++ tail, s₁, rfl, hm', allowed, .ends rfl still follows gave shut⟩

theorem Onward.returns {v : Value} (onward : Onward table place p (.returns v) after) :
    Shut place (.ok (.completed v)) after p := by
  cases onward with
  | goes _ follows idle going =>
    exact absurd (over_of_follows follows (Or.inr ⟨v, rfl⟩) idle) going
  | @ends sight rest tail s' parts quiet follows gave shut =>
    subst parts
    cases rest with
    | nil =>
      cases follows
      cases gave
      exact shut
    | cons m' rest =>
      obtain ⟨s₁, allowed, -⟩ := follows_cons.mp follows
      have none := (quiet m' List.mem_cons_self).2
      generalize m'.act = a at allowed none
      cases allowed
      cases none

/-- An error comes out at every place. The end of an iteration comes out as another error. -/
inductive Escapes (place : Nat) (e : Error) (after : Log W) (p : Stacked W) : Prop where
  | same (kind : e.kind ≠ .stopIteration) (shut : Shut place (.error e) after p)
  | other {e' w rest} (kind : e.kind = .stopIteration) (cause : e'.cause = .refused .endOfIteration)
      (made : after = ⟨0, .made (.refused .endOfIteration) (.ok e'), w⟩ :: rest)
      (shut : Shut place (.error e') rest p)

theorem Escapes.quiet {e : Error} (escapes : Escapes place e after p) :
    ∀ m ∈ after, m.act.runsCode = false := by
  cases escapes with
  | same kind shut => exact shut.quiet
  | other kind cause made shut =>
    rw [made]
    exact List.forall_mem_cons.mpr ⟨rfl, shut.quiet⟩

theorem Escapes.over {e : Error} (escapes : Escapes place e after p) :
    p.1.2 = .finished ∧ ∀ k < place, p.2 k = .finished := by
  cases escapes with
  | same kind shut => exact ⟨shut.lowest, shut.shells⟩
  | other kind cause made shut => exact ⟨shut.lowest, shut.shells⟩

theorem Onward.raises {e : Error} (onward : Onward table place p (.raises e) after) :
    Escapes place e after p := by
  cases onward with
  | goes _ follows idle going => exact absurd (over_of_raises follows idle) going
  | @ends sight rest tail s' parts quiet follows gave shut =>
    subst parts
    cases rest with
    | nil =>
      cases follows
      cases gave with
      | raise kind => exact .same kind shut
    | cons m' rest =>
      obtain ⟨s₁, allowed, follows⟩ := follows_cons.mp follows
      obtain ⟨⟨hm', none⟩, still⟩ := List.forall_mem_cons.mp quiet
      obtain ⟨place', a, w⟩ := m'
      obtain rfl : place' = 0 := hm'
      cases allowed with
      | raise => cases none
      | @convert _ e' stop cause =>
        -- The other error comes out, for it is not the end of an iteration.
        cases rest with
        | nil =>
          cases follows
          cases gave
          exact .other stop cause rfl shut
        | cons m'' rest =>
          obtain ⟨s₂, allowed', -⟩ := follows_cons.mp follows
          have none' := (still m'' List.mem_cons_self).2
          generalize m''.act = a at allowed' none'
          cases allowed' with
          | raise => cases none'
          | convert stop' => simp [ErrorOf.kind, cause, Cause.kind, Refusal.kind] at stop'

theorem Onward.refuses {cause : Cause Value} (onward : Onward table place p (.refuses cause) after)
    {m : Mark W} (leads : (m :: after).IsChain Mark.Leads) (hm : m.place = 0)
    (inner : m.act.Inner) :
    ∃ e w rest, after = ⟨0, .made cause (.ok e), w⟩ :: rest ∧ e.cause = cause ∧
      Escapes place e rest p := by
  obtain ⟨m', rest, s₁, rfl, hm', allowed, onward⟩ := onward.next leads hm inner
    (by simp [Stage.Idle, Stage.Rests]) (fun _ _ h => by cases h)
  obtain ⟨place', a, w⟩ := m'
  obtain rfl : place' = 0 := hm'
  cases allowed with
  | refuse hcause => exact ⟨_, w, rest, rfl, hcause, onward.raises⟩

/-! ## What a session says about the handling of an action -/

variable {before : Log W} {m : Mark W} (session : Session table K place p)
  (hlog : p.log = before ++ m :: after) (lowest : m.place = 0)

include session hlog lowest

theorem Session.past (inner : m.act.Inner) :
    ∃ s₀ s₁, Past table (Log.actsAt 0 before) s₀ ∧ Allowed table s₀ m.act s₁ ∧
      Onward table place p s₁ after ∧ ∃ s, Follows table s₁ (Log.actsAt 0 after) s ∧ s.Idle := by
  obtain ⟨s₀, s₁, first, allowed, onward⟩ := session.onward hlog lowest inner
  obtain ⟨s, follows, idle⟩ := session.follows
  rw [hlog, Log.actsAt_append, ← lowest, Log.actsAt_cons_self, lowest] at follows
  obtain ⟨s₀', first', follows⟩ := follows_append.mp follows
  obtain ⟨s₁', allowed', follows⟩ := follows_cons.mp follows
  -- The log has one reading, so the stages are the same.
  obtain rfl := first'.unique first
  obtain rfl := allowed'.unique allowed
  have start : Past table [] (.waits .start) := trivial
  exact ⟨s₀', s₁', past_of_follows start first, allowed, onward, s, follows, idle⟩

theorem Session.finishes (finishes : m.act.Finishes) :
    ∃ action f token returned exchange record w rest,
      Handles table (Log.actsAt 0 (before ++ [m])) action f token (.ok returned) exchange ∧
      after = ⟨0, .read token record, w⟩ :: rest ∧
      Onward table place p (.concluded action (record.bind (·.outcome))) rest := by
  obtain ⟨s₀, s₁, past, allowed, onward, -⟩ := session.past hlog lowest finishes.inner
  obtain ⟨action, f, token, returned, exchange, rfl, handles⟩ :=
    settles_of_finishes past allowed finishes
  obtain ⟨m', rest, s₂, rfl, hm', allowed', onward⟩ := onward.next (session.leads hlog) lowest
    finishes.inner (by simp [Stage.Idle, Stage.Rests]) (fun _ _ h => by cases h)
  rw [← Log.actsAt_snoc lowest] at handles
  obtain ⟨place', a, w⟩ := m'
  obtain rfl : place' = 0 := hm'
  cases allowed' with
  | conclude => exact ⟨action, f, token, returned, exchange, _, w, rest, handles, rfl, onward⟩

theorem Session.fails {e : Error} (fails : m.act.Fails e) :
    ∃ action f token r exchange,
      Handles table (Log.actsAt 0 (before ++ [m])) action f token r exchange ∧
      Escapes place e after p := by
  obtain ⟨s₀, s₁, past, allowed, onward, -⟩ := session.past hlog lowest fails.inner
  obtain ⟨action, f, token, r, exchange, rfl, handles⟩ := raises_of_fails past allowed fails
  rw [← Log.actsAt_snoc lowest] at handles
  exact ⟨action, f, token, r, exchange, handles, onward.raises⟩

theorem Session.breaks {v : Value} {e : Error} (hact : m.act = .advanced v (.raised e)) :
    Escapes place e after p := by
  have inner : m.act.Inner := by
    rw [hact]
    exact ⟨rfl, rfl⟩
  obtain ⟨s₀, s₁, -, allowed, onward, -⟩ := session.past hlog lowest inner
  rw [hact] at allowed
  cases allowed with
  | advance => exact onward.raises

end

end OneShot
