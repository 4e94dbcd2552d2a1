import OneShot.Proofs.Alike
import OneShot.Proofs.Answering

/-!
# Acts with their worlds

When computations stand around one another, a log says at which of them an act took place, and how
it left the world. The acts at the innermost one still follow the protocol.
-/

namespace OneShot

open Protocol

/-- An act at one of the computations that stand around one another, and the world after it. -/
structure Mark (W : Type) where
  place : Nat
  act : Act
  world : W

/-- What was done where. -/
def Mark.deed {W : Type} (m : Mark W) : Nat × Act := (m.place, m.act)

abbrev Log (W : Type) := List (Mark W)

namespace Log

variable {W : Type}

def actsAt (place : Nat) (log : Log W) : List Act :=
  (log.filter fun m => m.place = place).map Mark.act

variable {place : Nat} {log log' : Log W} {m : Mark W}

@[simp] theorem actsAt_nil : actsAt place ([] : Log W) = [] := rfl

@[simp] theorem actsAt_append :
    actsAt place (log ++ log') = actsAt place log ++ actsAt place log' := by
  simp [actsAt]

theorem actsAt_cons_self : actsAt m.place (m :: log) = m.act :: actsAt m.place log := by
  simp [actsAt]

theorem actsAt_snoc (h : m.place = place) :
    actsAt place (log ++ [m]) = actsAt place log ++ [m.act] := by
  simp [actsAt, h]

theorem actsAt_of_all (h : ∀ m ∈ log, m.place = place) : actsAt place log = log.map Mark.act := by
  have all : log.filter (fun m => m.place = place) = log := by simpa using h
  rw [actsAt, all]

theorem actsAt_of_none (h : ∀ m ∈ log, m.place ≠ place) : actsAt place log = [] := by
  have none : log.filter (fun m => m.place = place) = [] := by simpa using h
  rw [actsAt, none, List.map_nil]

theorem actsAt_eq_deeds :
    actsAt place log = ((log.map Mark.deed).filter fun d => d.1 = place).map Prod.snd := by
  rw [List.filter_map, List.map_map]
  rfl

theorem mem_actsAt {a : Act} : a ∈ actsAt place log ↔ ∃ m ∈ log, m.place = place ∧ m.act = a := by
  simp [actsAt, and_assoc]

theorem exists_mark {first last : List Act} {a : Act}
    (h : actsAt place log = first ++ a :: last) :
    ∃ before m after, log = before ++ m :: after ∧ m.place = place ∧ m.act = a ∧
      actsAt place after = last := by
  induction log generalizing first with
  | nil => simp at h
  | cons m log ih =>
    by_cases hm : m.place = place
    · rw [← hm, actsAt_cons_self, hm] at h
      cases first with
      | nil =>
        obtain ⟨rfl, rfl⟩ := List.cons.inj h
        exact ⟨[], m, log, rfl, hm, rfl, rfl⟩
      | cons a' first =>
        obtain ⟨before, m', after, rfl, rest⟩ := ih (List.cons.inj h).2
        exact ⟨m :: before, m', after, rfl, rest⟩
    · have skip : actsAt place (m :: log) = actsAt place log := by simp [actsAt, hm]
      rw [skip] at h
      obtain ⟨before, m', after, rfl, rest⟩ := ih h
      exact ⟨m :: before, m', after, rfl, rest⟩

end Log

variable {W α : Type}

/-! ## Marked runs -/

/-- The run with marks for its acts. -/
def Exec.placed (place : Nat) (x : Exec (W × List Act) α) : Exec (W × Log W) α := fun p =>
  ((x (p.1, [])).1, ((x (p.1, [])).2.1,
    p.2 ++ (x (p.1, [])).2.2.map fun a => ⟨place, a, (x (p.1, [])).2.1⟩))

def Host.placed (place : Nat) (host : Host (W × List Act)) : Host (W × Log W) where
  drive n v := (host.drive n v).placed place
  call f arguments := (host.call f arguments).placed place
  issue action := (host.issue action).placed place
  outcome token := (host.outcome token).placed place
  settle tactics o := (host.settle tactics o).placed place
  note n := (host.note n).placed place
  mint cause := (host.mint cause).placed place

def Source.placed (place : Nat) (c : Source (W × List Act)) : Source (W × Log W) := fun v =>
  (c v).placed place

/-- The run only adds acts, and the earlier ones do not matter to it. -/
def Exec.Appends (x : Exec (W × List Act) α) : Prop :=
  ∀ w log, x (w, log) = ((x (w, [])).1, ((x (w, [])).2.1, log ++ (x (w, [])).2.2))

theorem Exec.appends_beside (x : Exec W α) : Appends (x.beside : Exec (W × List Act) α) := by
  intro w log
  simp [beside_apply]

/-- Acts and marks that tell the same from some log on. -/
def Told (place : Nat) (base : Log W) (p : W × List Act) (q : W × Log W) : Prop :=
  q.1 = p.1 ∧ ∃ marks, q.2 = base ++ marks ∧ marks.map Mark.act = p.2 ∧
    ∀ m ∈ marks, m.place = place

variable {place : Nat} {base : Log W}

theorem Exec.alike_placed {x : Exec (W × List Act) α} (appends : x.Appends) :
    Alike (Told place base) x (x.placed place) := by
  rintro ⟨w, acts⟩ ⟨_, _⟩ ⟨rfl, marks, rfl, rfl, places⟩
  rw [appends]
  refine ⟨rfl, rfl, marks ++ _, List.append_assoc _ _ _, ?_, ?_⟩
  · rw [List.map_append, List.map_map]
    exact congrArg _ (List.map_id _)
  · intro m hm
    rcases List.mem_append.mp hm with hm | hm
    · exact places m hm
    · obtain ⟨a, -, rfl⟩ := List.mem_map.mp hm
      rfl

variable {host : Host W} {tokens : W → Nat → Option Token} {c : Source W}

theorem Source.alike_placed (v : Value) :
    Exec.Alike (Told place base) (c.logged v) (c.logged.placed place v) :=
  Exec.alike_placed fun _ _ => rfl

theorem Host.alike_placed :
    Host.Alike (Told place base) (host.logged tokens) ((host.logged tokens).placed place) where
  drive _ _ := Exec.alike_placed fun _ _ => rfl
  call _ _ := Exec.alike_placed fun _ _ => rfl
  issue _ := Exec.alike_placed fun _ _ => rfl
  outcome _ := Exec.alike_placed fun _ _ => rfl
  note n := Exec.alike_placed (Exec.appends_beside (host.note n))
  mint _ := Exec.alike_placed fun _ _ => rfl

namespace Dispatch

variable {table : Table} {bound : Nat}

theorem drive_told (lawful : host.Lawful tokens) (c : Source W) {l : Life Phase} {s : Stage}
    (between : Between l s) (v : Value) (w : W) (log : Log W) :
    ∃ marks s₁ s₂ r w' l',
      handling ((host.logged tokens).placed place) table (c.logged.placed place) bound v
        ((w, log), l) = (r, ((w', log ++ marks), l')) ∧
      (∀ m ∈ marks, m.place = place) ∧ Allowed table s (.sent v) s₁ ∧
      (∀ m ∈ marks, m.act.Inner) ∧ Follows table s₁ (marks.map Mark.act) s₂ ∧
      Given table bound (marks.map Mark.act) s₂ l' r := by
  obtain ⟨acts, s₁, s₂, r, w', l', -, logged, sent, inner, follows, given⟩ :=
    @drive_follows W table bound host tokens lawful c l s between v w []
  have told : Told place log (w, []) (w, log) :=
    ⟨rfl, [], (List.append_nil log).symm, rfl, List.forall_mem_nil _⟩
  have alike := alike_handling (@Host.alike_placed W place log host tokens)
    (@Source.alike_placed W place log c) table bound v ((w, []), l) ((w, log), l) ⟨told, rfl⟩
  rw [logged] at alike
  rcases hplaced : handling ((host.logged tokens).placed place) table (c.logged.placed place) bound
    v ((w, log), l) with ⟨r', ⟨w₁, log₁⟩, l₁⟩
  rw [hplaced] at alike
  obtain ⟨hresult, ⟨hworld, marks, hlog, hacts, places⟩, hlife⟩ := alike
  simp only [List.nil_append] at hresult hworld hlog hacts hlife
  subst hresult hworld hlog hacts hlife
  refine ⟨marks, s₁, s₂, r, _, _, rfl, places, sent, ?_, follows, given⟩
  intro m hm
  exact inner _ (List.mem_map_of_mem hm)

end Dispatch

end OneShot
