import Mathlib.Data.List.Chain
import OneShot.Proofs.Marks
import OneShot.Proofs.Past
import OneShot.Proofs.Stack

/-!
# A session with a stack

The driver drives the highest computation of a stack, turn by turn. As long as the lowest one is not
over it follows the answer protocol, whatever the others do. When it is over, all above it are over
in the same drive, each in the same way.
-/

namespace OneShot

open Protocol Exec
open Dispatch (Phase Between Given handling)

/-- A world with a log, the life of the lowest computation, and the lives of those around it. -/
abbrev Stacked (W : Type) := ((W × Log W) × Life Phase) × (Nat → Life Shell)

variable {W : Type}

namespace Stacked

def log (p : Stacked W) : Log W := p.1.1.2

def mark (place : Nat) (a : Act) (p : Stacked W) : Stacked W :=
  (((p.1.1.1, p.1.1.2 ++ [⟨place, a, p.1.1.1⟩]), p.1.2), p.2)

def change (f : W → W) (p : Stacked W) : Stacked W := (((f p.1.1.1, p.1.1.2), p.1.2), p.2)

end Stacked

/-- Keeps in the log what is sent to a computation and how its drives end. -/
def witnessed (place : Nat) (source : Source (Stacked W)) : Source (Stacked W) := fun v => do
  Exec.modify (Stacked.mark place (.sent v))
  let sight ← (source v).look
  Exec.modify (Stacked.mark place (.gave sight))
  match sight with
  | .ok step => return step
  | .error e => Exec.raise e

/-- The services of the computation at a place. -/
def services (host : Host W) (tokens : W → Nat → Option Token) (place : Nat) : Host (Stacked W) :=
  ((host.logged tokens).placed place).beside.beside

/-- The computations of a stack around the one that handles a source with a table. -/
def stack (host : Host W) (tokens : W → Nat → Option Token) (table : Table) (c : Source W)
    (bound : Nat) : Nat → Source (Stacked W) :=
  level witnessed (services host tokens) Cell.nth
    (handling ((host.logged tokens).placed 0) table (c.logged.placed 0) bound).beside bound

theorem witnessed_of {place : Nat} {source : Source (Stacked W)} {v : Value} {p q : Stacked W}
    {sight : Sight} (h : source v (p.mark place (.sent v)) = (.of sight, q)) :
    witnessed place source v p = (.of sight, q.mark place (.gave sight)) := by
  have look := Exec.look_eq.mpr ⟨sight, rfl, h⟩
  simp only [witnessed]
  rw [Exec.bind_ok (rfl : Exec.modify (Stacked.mark place (.sent v)) p = _), Exec.bind_ok look]
  cases sight <;> rfl

theorem witnessed_exhausted {place : Nat} {source : Source (Stacked W)} {v : Value}
    {p q : Stacked W} (h : source v (p.mark place (.sent v)) = (.exhausted, q)) :
    witnessed place source v p = (.exhausted, q) := by
  simp only [witnessed]
  rw [Exec.bind_ok (rfl : Exec.modify (Stacked.mark place (.sent v)) p = _)]
  simp only [Exec.look, Exec.rescue, Bind.bind, Exec.bind, h]

/-! ## Logs without a gap -/

/-- Nothing comes between the acts of one drive of the lowest computation. -/
def Mark.Leads (m m' : Mark W) : Prop := m.place = 0 → m.act.gave? = none → m'.place = 0

namespace Log

/-- The lowest computation is not in a drive at the end of the log. -/
structure Whole (log : Log W) : Prop where
  unbroken : log.IsChain Mark.Leads
  rests : ∀ m ∈ log.getLast?, m.place = 0 → m.act.gave? ≠ none

variable {log marks : Log W}

theorem whole_nil : Whole ([] : Log W) := ⟨.nil, fun _ h => by simp at h⟩

theorem Whole.leads (whole : Whole log) (hmarks : marks.IsChain Mark.Leads) :
    (log ++ marks).IsChain Mark.Leads := by
  rw [List.isChain_append]
  refine ⟨whole.unbroken, hmarks, ?_⟩
  intro m hm _ _ place none
  exact absurd none (whole.rests m hm place)

theorem Whole.drives (whole : Whole log) (h : ∀ m ∈ marks, m.place = 0) :
    (log ++ marks).IsChain Mark.Leads := by
  have leads : marks.Pairwise Mark.Leads :=
    List.pairwise_of_forall_mem_list fun _ _ m' hm' _ _ => h m' hm'
  exact whole.leads leads.isChain

theorem Whole.around (whole : Whole log) (h : ∀ m ∈ marks, m.place ≠ 0) : Whole (log ++ marks) := by
  have leads : marks.Pairwise Mark.Leads :=
    List.pairwise_of_forall_mem_list fun m hm _ _ place _ => absurd place (h m hm)
  refine ⟨whole.leads leads.isChain, ?_⟩
  intro m hm place
  rw [List.getLast?_append] at hm
  cases hlast : marks.getLast? with
  | none =>
    rw [hlast] at hm
    exact whole.rests m hm place
  | some m' =>
    rw [hlast] at hm
    obtain rfl : m' = m := by simpa using hm
    exact absurd place (h m' (List.mem_of_getLast? hlast))

theorem Whole.drive (whole : Whole log) (h : ∀ m ∈ marks, m.place = 0) (sight : Sight) (w : W) :
    Whole (log ++ (marks ++ [⟨0, .gave sight, w⟩])) := by
  have all : ∀ m ∈ marks ++ [⟨0, .gave sight, w⟩], m.place = 0 := by
    intro m hm
    rcases List.mem_append.mp hm with hm | hm
    · exact h m hm
    · rw [List.mem_singleton.mp hm]
  refine ⟨whole.drives all, ?_⟩
  intro m hm _
  rw [← List.append_assoc, List.getLast?_append] at hm
  obtain rfl : _ = m := by simpa using hm
  simp [Act.gave?]

end Log

/-! ## What holds on the way -/

/-- A property of the world and the log that everything in the run keeps. -/
structure Stable (host : Host W) (tokens : W → Nat → Option Token) (c : Source W)
    (K : W × Log W → Prop) : Prop where
  services : ∀ place, ((host.logged tokens).placed place).Keeps K
  source : ∀ v, Keeps K (c.logged.placed 0 v)
  sent : ∀ place v w log, K (w, log) → K (w, log ++ [⟨place, .sent v, w⟩])
  gave : ∀ place sight w log, K (w, log) → K (w, log ++ [⟨place, .gave sight, w⟩])

/-- A service that is called in one world leaves another one. -/
inductive Served (host : Host W) (tokens : W → Nat → Option Token) : W → Act → W → Prop where
  | drove {n v w} : Served host tokens w (.drove n v (host.drive n v w).1) (host.drive n v w).2
  | called {f arguments w} : Served host tokens w (.called f arguments (host.call f arguments w).1)
      (host.call f arguments w).2
  | issued {action w} : Served host tokens w (.issued action (host.issue action w).1 (tokens w)
      (tokens (host.issue action w).2)) (host.issue action w).2
  | read {token w} : Served host tokens w (.read token (tokens w token)) (host.outcome token w).2
  | made {cause w} : Served host tokens w (.made cause (host.mint cause w).1) (host.mint cause w).2

theorem Served.inner {host : Host W} {tokens : W → Nat → Option Token} {w w' : W} {a : Act}
    (h : Served host tokens w a w') : a.Inner ∧ a.isAdvanced = false := by
  cases h <;> exact ⟨⟨rfl, rfl⟩, rfl⟩

/-- A property is kept by everything if single acts keep it. -/
theorem Stable.of_served {host : Host W} {tokens : W → Nat → Option Token} {c : Source W}
    {K : W × Log W → Prop}
    (notes : ∀ n w log, K (w, log) → K ((host.note n w).2, log))
    (serves : ∀ place {w a w'} log, Served host tokens w a w' → K (w, log) →
      K (w', log ++ [⟨place, a, w'⟩]))
    (source : ∀ v w log, K (w, log) →
      K ((c v w).2, log ++ [⟨0, .advanced v (c v w).1, (c v w).2⟩]))
    (sent : ∀ place v w log, K (w, log) → K (w, log ++ [⟨place, .sent v, w⟩]))
    (gave : ∀ place sight w log, K (w, log) → K (w, log ++ [⟨place, .gave sight, w⟩])) :
    Stable host tokens c K where
  services place := by
    have noted (n : Note) : Keeps K (((host.logged tokens).placed place).note n) := by
      rintro ⟨w, log⟩ h
      show K ((host.note n w).2, log ++ [])
      rw [List.append_nil]
      exact notes n w log h
    constructor
    · exact fun n v => keeps_iff_alike.mp fun p h => serves place p.2 .drove h
    · exact fun f arguments => keeps_iff_alike.mp fun p h => serves place p.2 .called h
    · exact fun action => keeps_iff_alike.mp fun p h => serves place p.2 .issued h
    · exact fun token => keeps_iff_alike.mp fun p h => serves place p.2 .read h
    · exact fun n => keeps_iff_alike.mp (noted n)
    · exact fun cause => keeps_iff_alike.mp fun p h => serves place p.2 .made h
  source v := fun p h => source v p.1 p.2 h
  sent := sent
  gave := gave

theorem Stable.and {host : Host W} {tokens : W → Nat → Option Token} {c : Source W}
    {K K' : W × Log W → Prop} (stable : Stable host tokens c K)
    (stable' : Stable host tokens c K') : Stable host tokens c fun p => K p ∧ K' p where
  services place := by
    have both {α : Type} {x : Exec (W × Log W) α} (h : Alike (fun p q => p = q ∧ K p) x x)
        (h' : Alike (fun p q => p = q ∧ K' p) x x) :
        Alike (fun p q => p = q ∧ K p ∧ K' p) x x :=
      keeps_iff_alike.mp fun p hp =>
        ⟨keeps_iff_alike.mpr h p hp.1, keeps_iff_alike.mpr h' p hp.2⟩
    have keeps := stable.services place
    have keeps' := stable'.services place
    exact ⟨fun n v => both (keeps.drive n v) (keeps'.drive n v),
      fun f arguments => both (keeps.call f arguments) (keeps'.call f arguments),
      fun action => both (keeps.issue action) (keeps'.issue action),
      fun token => both (keeps.outcome token) (keeps'.outcome token),
      fun n => both (keeps.note n) (keeps'.note n),
      fun cause => both (keeps.mint cause) (keeps'.mint cause)⟩
  source v p h := ⟨stable.source v p h.1, stable'.source v p h.2⟩
  sent place v w log h := ⟨stable.sent place v w log h.1, stable'.sent place v w log h.2⟩
  gave place sight w log h :=
    ⟨stable.gave place sight w log h.1, stable'.gave place sight w log h.2⟩

/-- What is read of a token is what the token held after the act before. -/
structure Prompt (tokens : W → Nat → Option Token) (p : W × Log W) : Prop where
  now : ∀ m ∈ p.2.getLast?, m.act.Inner → tokens p.1 = tokens m.world
  reads : p.2.IsChain fun m m' => m.act.Inner → ∀ token record, m'.act = .read token record →
    record = tokens m.world token

theorem Prompt.record {tokens : W → Nat → Option Token} {p : W × Log W} (prompt : Prompt tokens p)
    {before after : Log W} {m : Mark W} {place token : Nat} {record : Option Token} {w : W}
    (hlog : p.2 = before ++ m :: ⟨place, .read token record, w⟩ :: after) (inner : m.act.Inner) :
    record = tokens m.world token := by
  have reads := prompt.reads
  rw [hlog] at reads
  exact (List.isChain_cons_cons.mp reads.right_of_append).1 inner token record rfl

theorem stable_prompt {host : Host W} {tokens : W → Nat → Option Token} (c : Source W)
    (notes : ∀ n w, tokens (host.note n w).2 = tokens w) :
    Stable host tokens c (Prompt tokens) := by
  have snoc {w : W} {log : Log W} (h : Prompt tokens (w, log)) (place : Nat) (a : Act) (w' : W)
      (reads : ∀ token record, a = .read token record → record = tokens w token) :
      Prompt tokens (w', log ++ [⟨place, a, w'⟩]) := by
    refine ⟨?_, ?_⟩
    · intro m hm _
      obtain rfl : _ = m := by simpa using hm
      rfl
    · refine h.reads.append (.singleton _) ?_
      intro m hm m' hm' inner token record hact
      obtain rfl : _ = m' := by simpa using hm'
      rw [← h.now m hm inner]
      exact reads token record hact
  refine .of_served ?_ ?_ ?_ ?_ ?_
  · intro n w log h
    exact ⟨fun m hm inner => (notes n w).trans (h.now m hm inner), h.reads⟩
  · intro place w a w' log served h
    refine snoc h place a w' fun token record hact => ?_
    cases served with
    | read =>
      obtain ⟨rfl, rfl⟩ := Act.read.inj hact
      rfl
    | _ => cases hact
  · exact fun v w log h => snoc h 0 _ _ fun token record hact => by cases hact
  · exact fun place v w log h => snoc h place _ _ fun token record hact => by cases hact
  · exact fun place sight w log h => snoc h place _ _ fun token record hact => by cases hact

/-- A drive that is the last one. -/
def Final : Sight → Prop
  | .ok (.suspended _) => False
  | .ok (.completed _) => True
  | .error e => e.kind ≠ .stopIteration

/-- The lowest computation is not over. -/
structure Live (table : Table) (K : W × Log W → Prop) (p : Stacked W) : Prop where
  kept : K p.1.1
  whole : p.log.Whole
  waits : ∃ phase, Follows table (.waits .start) (p.log.actsAt 0) (.waits phase) ∧
    Between p.1.2 (.waits phase)

/-- The session stops here without an end of the lowest computation. -/
structure Stopped (table : Table) (K : W × Log W → Prop) (p : Stacked W) : Prop where
  kept : K p.1.1
  unbroken : p.log.IsChain Mark.Leads
  follows : ∃ s, Follows table (.waits .start) (p.log.actsAt 0) s ∧ s.Idle ∧ s ≠ .over

/-- The same end at the lowest places up to this one. -/
def Ends (place : Nat) (sight : Sight) (marks : Log W) : Prop :=
  marks.map Mark.deed = (List.range (place + 1)).map fun k => (k, .gave sight)

/-- The log ends with the last drive of the lowest computation, and with its end at all places up to
this one. -/
def Ended (table : Table) (place : Nat) (sight : Sight) (log : Log W) : Prop :=
  ∃ before drive ends phase s, log = before ++ (drive ++ ends) ∧
    Follows table (.waits .start) (before.actsAt 0) (.waits phase) ∧
    (∀ m ∈ drive, m.place = 0 ∧ m.act.gave? = none) ∧
    Follows table (.waits phase) (drive.map Mark.act) s ∧ Allowed table s (.gave sight) .over ∧
    Ends place sight ends

/-- The computations up to a place are over. -/
structure Over (table : Table) (K : W × Log W → Prop) (place : Nat) (sight : Sight)
    (p : Stacked W) : Prop where
  kept : K p.1.1
  whole : p.log.Whole
  final : Final sight
  lowest : p.1.2 = .finished
  shells : ∀ k < place, p.2 k = .finished
  ended : Ended table place sight p.log

variable {host : Host W} {tokens : W → Nat → Option Token} {table : Table} {c : Source W}
  {K : W × Log W → Prop} {bound : Nat}

theorem Dispatch.Between.split {l : Life Phase} {s : Stage} (between : Between l s) :
    (∃ phase, s = .waits phase) ∨ s = .over ∧ l = .finished := by
  cases between with
  | fresh => exact Or.inl ⟨_, rfl⟩
  | suspended => exact Or.inl ⟨_, rfl⟩
  | finished => exact Or.inr ⟨rfl, rfl⟩

theorem Live.stops {p : Stacked W} (live : Live table K p) : Stopped table K p := by
  obtain ⟨phase, follows, -⟩ := live.waits
  exact ⟨live.kept, live.whole.unbroken, _, follows, .of_between, by simp⟩

theorem Live.around {p : Stacked W} (live : Live table K p) {marks : Log W} {w : W}
    (kept : K (w, p.log ++ marks)) (h : ∀ m ∈ marks, m.place ≠ 0) (lives : Nat → Life Shell) :
    Live table K (((w, p.log ++ marks), p.1.2), lives) := by
  obtain ⟨phase, follows, between⟩ := live.waits
  refine ⟨kept, live.whole.around h, phase, ?_, between⟩
  show Follows table _ ((p.log ++ marks).actsAt 0) _
  rw [Log.actsAt_append, Log.actsAt_of_none h, List.append_nil]
  exact follows

theorem keeps_live_placed {α : Type} {place : Nat} (h : place ≠ 0) {x : Exec (W × List Act) α}
    (keeps : Keeps K (x.placed place)) :
    Keeps (Live table K) ((x.placed place).beside.beside : Exec (Stacked W) α) := by
  rintro ⟨⟨⟨w, log⟩, l⟩, lives⟩ live
  refine live.around (keeps (w, log) live.kept) ?_ lives
  intro m hm
  obtain ⟨a, -, rfl⟩ := List.mem_map.mp hm
  exact h

section

variable (stable : Stable host tokens c K)

include stable

theorem keeps_live_services {place : Nat} (h : place ≠ 0) :
    (services host tokens place).Keeps (Live table K) := by
  have keeps := stable.services place
  constructor
  · exact fun n v => keeps_iff_alike.mp
      (keeps_live_placed h (keeps_iff_alike.mpr (keeps.drive n v)))
  · exact fun f arguments => keeps_iff_alike.mp
      (keeps_live_placed h (keeps_iff_alike.mpr (keeps.call f arguments)))
  · exact fun action => keeps_iff_alike.mp
      (keeps_live_placed h (keeps_iff_alike.mpr (keeps.issue action)))
  · exact fun token => keeps_iff_alike.mp
      (keeps_live_placed h (keeps_iff_alike.mpr (keeps.outcome token)))
  · exact fun n => keeps_iff_alike.mp (keeps_live_placed h (keeps_iff_alike.mpr (keeps.note n)))
  · exact fun cause => keeps_iff_alike.mp
      (keeps_live_placed h (keeps_iff_alike.mpr (keeps.mint cause)))

theorem Over.noted (lawful : host.Lawful tokens) {place place' : Nat} {sight : Sight}
    {p : Stacked W} (isOver : Over table K place sight p) (n : Note) :
    ∃ q, (services host tokens place').note n p = (.ok (), q) ∧ Over table K place sight q := by
  obtain ⟨⟨⟨w, log⟩, l⟩, lives⟩ := p
  obtain ⟨w', h⟩ := lawful.notes n w
  have noted : ((host.logged tokens).placed place').note n (w, log) = (.ok (), (w', log)) := by
    have told : ((host.logged tokens).placed place').note n (w, log) =
        ((host.note n w).1, ((host.note n w).2, log ++ [])) := rfl
    rw [told, h, List.append_nil]
  have kept := keeps_iff_alike.mpr ((stable.services place').note n) (w, log) isOver.kept
  rw [noted] at kept
  refine ⟨(((w', log), l), lives), ?_, ?_⟩
  · exact Exec.beside_eq.mpr ⟨Exec.beside_eq.mpr ⟨noted, rfl⟩, rfl⟩
  · exact ⟨kept, isOver.whole, isOver.final, isOver.lowest, isOver.shells, isOver.ended⟩

omit stable in
theorem final_of_allowed {s : Stage} {sight : Sight} (h : Allowed table s (.gave sight) .over) :
    Final sight := by
  cases h with
  | complete => trivial
  | raise kind => exact kind

theorem passes_lowest (lawful : host.Lawful tokens) (v : Value) :
    Passes (Live table K) (Stopped table K) (Over table K 0)
      (stack host tokens table c bound 0 v) := by
  rintro ⟨⟨⟨w, log⟩, l⟩, lives⟩ r q live hx
  obtain ⟨phase, follows, between⟩ := live.waits
  obtain ⟨marks, s₁, s₂, r', w', l', drive, places, sent, inner, onward, given⟩ :=
    @Dispatch.drive_told W 0 host tokens table bound lawful c l _ between v w
      (log ++ [⟨0, .sent v, w⟩])
  have kept := Dispatch.keeps_handling (stable.services 0) stable.source table bound v
    ((w, log ++ [⟨0, .sent v, w⟩]), l) (stable.sent 0 v w log live.kept)
  rw [drive, List.append_assoc, List.singleton_append] at kept
  rw [List.append_assoc, List.singleton_append] at drive
  -- The drive with what was sent for it.
  have quiet : ∀ m ∈ (⟨0, .sent v, w⟩ :: marks : Log W), m.place = 0 ∧ m.act.gave? = none :=
    List.forall_mem_cons.mpr ⟨⟨rfl, rfl⟩, fun m hm => ⟨places m hm, (inner m hm).2⟩⟩
  have led : Follows table (.waits phase) ((⟨0, .sent v, w⟩ :: marks : Log W).map Mark.act) s₂ :=
    .cons sent onward
  generalize hdriven : (⟨0, .sent v, w⟩ :: marks : Log W) = driven at kept drive quiet led
  have all (m : Mark W) (hm : m ∈ driven) : m.place = 0 := (quiet m hm).1
  have acts : (log ++ driven).actsAt 0 = log.actsAt 0 ++ driven.map Mark.act := by
    rw [Log.actsAt_append, Log.actsAt_of_all all]
  have drive : (handling ((host.logged tokens).placed 0) table (c.logged.placed 0) bound).beside v
      (Stacked.mark 0 (.sent v) (((w, log), l), lives)) =
        (r', (((w', log ++ driven), l'), lives)) :=
    Exec.beside_eq.mpr ⟨drive, rfl⟩
  rcases given with ⟨sight, s', rfl, gave, between'⟩ | ⟨rfl, left⟩
  · obtain ⟨rfl, rfl⟩ := Prod.mk.inj ((witnessed_of drive).symm.trans hx)
    refine Or.inr ⟨sight, rfl, ?_⟩
    have marked := stable.gave 0 sight w' _ kept
    have whole := live.whole.drive all sight w'
    rw [← List.append_assoc] at whole
    rcases between'.split with ⟨phase', rfl⟩ | ⟨rfl, rfl⟩
    · have acts' : Log.actsAt 0 (log ++ driven ++ [⟨0, .gave sight, w'⟩]) =
          log.actsAt 0 ++ driven.map Mark.act ++ [.gave sight] := by
        rw [Log.actsAt_append, acts]
        rfl
      refine Or.inl ⟨marked, whole, phase', ?_, between'⟩
      show Follows table _ ((log ++ driven ++ [_]).actsAt 0) _
      rw [acts']
      exact (follows.trans led).trans (.one gave)
    · exact Or.inr ⟨marked, whole, final_of_allowed gave, rfl,
        fun k hk => absurd hk (Nat.not_lt_zero k), log, driven, _, phase, s₂,
        List.append_assoc _ _ _, follows, quiet, led, gave, rfl⟩
  · obtain ⟨rfl, rfl⟩ := Prod.mk.inj ((witnessed_exhausted drive).symm.trans hx)
    refine Or.inl ⟨rfl, kept, live.whole.drives all, s₂, ?_, ?_, ?_⟩
    · show Follows table _ ((log ++ driven).actsAt 0) _
      rw [acts]
      exact follows.trans led
    · exact Or.inr (left.imp_right And.left)
    · rintro rfl
      rcases left with left | ⟨⟨v, left⟩, -⟩
      all_goals cases left

theorem passes_witnessed {place : Nat} (h : place ≠ 0) {shut shut' : Sight → Stacked W → Prop}
    {source : Source (Stacked W)}
    (passes : ∀ v, Passes (Live table K) (Stopped table K) shut (source v))
    (marked : ∀ sight p, shut sight p → shut' sight (p.mark place (.gave sight))) (v : Value) :
    Passes (Live table K) (Stopped table K) shut' (witnessed place source v) := by
  have outside (a : Act) (w : W) : ∀ m ∈ ([⟨place, a, w⟩] : Log W), m.place ≠ 0 :=
    List.forall_mem_singleton.mpr h
  intro p r q live hx
  have sent : Live table K (p.mark place (.sent v)) :=
    live.around (stable.sent place v _ _ live.kept) (outside _ _) p.2
  rcases hs : source v (p.mark place (.sent v)) with ⟨r₁, q₁⟩
  rcases passes v _ r₁ q₁ sent hs with ⟨rfl, stop⟩ | ⟨sight, rfl, ended⟩
  · obtain ⟨rfl, rfl⟩ := Prod.mk.inj ((witnessed_exhausted hs).symm.trans hx)
    exact Or.inl ⟨rfl, stop⟩
  · obtain ⟨rfl, rfl⟩ := Prod.mk.inj ((witnessed_of hs).symm.trans hx)
    refine Or.inr ⟨sight, rfl, ended.imp (fun live => ?_) (marked sight q₁)⟩
    exact live.around (stable.gave place sight _ _ live.kept) (outside _ _) q₁.2

theorem Over.mark {place : Nat} {sight : Sight} {p : Stacked W}
    (isOver : Over table K place sight p) (life : p.2 place = .finished) :
    Over table K (place + 1) sight (p.mark (place + 1) (.gave sight)) := by
  obtain ⟨before, drive, ends, phase, s, hlog, follows, quiet, led, gave, hends⟩ := isOver.ended
  refine ⟨stable.gave _ _ _ _ isOver.kept, isOver.whole.around ?_, isOver.final, isOver.lowest, ?_,
    before, drive, ends ++ [⟨place + 1, .gave sight, p.1.1.1⟩], phase, s, ?_, follows, quiet, led,
    gave, ?_⟩
  · exact List.forall_mem_singleton.mpr (Nat.succ_ne_zero place)
  · intro k hk
    rcases Nat.lt_succ_iff_lt_or_eq.mp hk with hk | rfl
    · exact isOver.shells k hk
    · exact life
  · show p.log ++ [_] = _
    rw [hlog]
    simp only [List.append_assoc]
  · unfold Ends at hends ⊢
    rw [List.map_append, hends, List.range_succ (n := place + 1), List.map_append]
    rfl

/-- All computations up to a place are over in the drive in which the lowest one is. -/
theorem passes_stack (lawful : host.Lawful tokens) (place : Nat) (v : Value) :
    Passes (Live table K) (Stopped table K) (Over table K place)
      (stack host tokens table c bound place v) := by
  induction place generalizing v with
  | zero => exact passes_lowest stable lawful v
  | succ place ih =>
    -- The source of this computation is the stack up to the place below.
    have final (x : Value) (p : Stacked W) : ¬ Over table K place (.ok (.suspended x)) p :=
      fun isOver => isOver.final
    have stops (p : Stacked W) (live : Live table K p) : Stopped table K p := live.stops
    have keeps : (services host tokens (place + 1)).Keeps (Live table K) :=
      keeps_live_services stable (Nat.succ_ne_zero place)
    have bodies (shell : Shell) (v : Value) :=
      Shell.passes_advance final stops keeps ih
        (fun _ n _ isOver => isOver.noted stable lawful n) bound shell v
    have closes (sight : Sight) (p : Stacked W) (isOver : Over table K place sight p) :
        Over table K place sight ((Cell.nth place).set .finished p) ∧
          ((Cell.nth place).set .finished p).2 place = .finished := by
      refine ⟨⟨isOver.kept, isOver.whole, isOver.final, isOver.lowest, fun k hk => ?_,
        isOver.ended⟩, ?_⟩
      · simp only [Cell.nth, Function.update_of_ne (Nat.ne_of_lt hk)]
        exact isOver.shells k hk
      · simp only [Cell.nth, Function.update_self]
    have drives (v : Value) : Passes (Live table K) (Stopped table K)
        (fun sight p => Over table K place sight p ∧ p.2 place = .finished)
        (Life.drive (services host tokens (place + 1)).mint (Cell.nth place)
          (Shell.advance (services host tokens (place + 1)) (stack host tokens table c bound place)
            bound) v) :=
      Life.passes_drive final stops keeps bodies
        (fun _ p live => ⟨live.kept, live.whole, live.waits⟩)
        (fun _ p stopped => ⟨stopped.kept, stopped.unbroken, stopped.follows⟩) closes
        (fun e p isOver => isOver.final) v
    exact passes_witnessed stable (Nat.succ_ne_zero place) drives
      (fun sight p h => h.1.mark stable h.2) v

end

end OneShot
