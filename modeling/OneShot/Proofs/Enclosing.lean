import OneShot.Pool
import OneShot.Proofs.Levels
import OneShot.Proofs.Tables

/-!
# Computations of handlers and the enclosing table

What the computation of a handler yields goes to the table around the one that called it. To see
this, each handler of the inner table is replaced by one that handles its computation with the outer
table. The two loops then do what one loop with the merged table does.
-/

namespace OneShot

/-- New entries in the place of others. -/
structure NewEntries where
  make : Value → Value
  origin? : Value → Option Value
  origin_make : ∀ f, origin? (make f) = some f
  callable_make : ∀ f, (make f).isCallable = true

/-- Only an entry that can be called is replaced. -/
def NewEntries.replace (new : NewEntries) (entry : Value) : Value :=
  if entry.isCallable then new.make entry else entry

def NewEntries.table (new : NewEntries) (t : Table) : Table :=
  Assoc.mapContents (Assoc.mapContents new.replace) t

def NewEntries.methods : NewEntries where
  make f := .method f .unwrap
  origin?
    | .method f .unwrap => some f
    | _ => none
  origin_make _ := rfl
  callable_make _ := rfl

namespace Dispatch

/-- A computation that an entry has returned. -/
inductive Returned where
  | plain (n : Nat)
  /-- The computation is handled. This is the life of that. -/
  | enclosed (n : Nat) (life : Life Phase)

variable {W : Type}

/-- The place of an enclosed computation, with the world that it runs in. -/
def enclosedCell (i n : Nat) (life : Life Phase) : Cell (W × Pool Returned) (W × Life Phase) where
  get p := (p.1, life)
  set q p := (q.1, p.2.set i (.enclosed n q.2))

/-- Takes in a computation that an entry has returned. It gets a new identity. -/
def takeIn (kind : Nat → Returned) (returned : Value) : Exec (W × Pool Returned) Value :=
  match returned.computation? with
  | some n => Exec.alter fun p => (.computation p.2.next, (p.1, (p.2.add (kind n)).2))
  | none => pure returned

/-- The services with the new entries. A new entry calls the one that it replaces, and what that
returns is handled with the table. -/
def enclosing (host : Host W) (table : Table) (new : NewEntries) (bound : Nat) :
    Host (W × Pool Returned) :=
  { host.beside with
    drive := fun i v => do
      match ← Exec.read fun p => p.2.get? i with
      | some (.plain n) => (host.drive n v).beside
      | some (.enclosed n life) =>
        Exec.within (enclosedCell i n life) (handling host table (host.drive n) bound v)
      | none => pure (.completed .nil)
    call := fun f arguments => do
      match new.origin? f with
      | some old =>
        takeIn (.enclosed · (.fresh .start)) (← (host.call old arguments).beside)
      | none => takeIn .plain (← (host.call f arguments).beside) }

section

variable {host : Host W} {table : Table} {new : NewEntries}

theorem growing_enclosing : Host.Growing (enclosing host table new) where
  drive i v := by
    refine (Exec.growing_const _).bind fun returned => ?_
    match returned with
    | none => exact Exec.growing_const _
    | some (.plain n) => exact Exec.growing_const _
    | some (.enclosed n life) => exact (steady_handling v).within
  call _ _ := Exec.growing_const _
  issue _ := rfl
  outcome _ := rfl
  note _ := rfl
  mint _ := rfl

theorem drive_apply (b i : Nat) (v : Value) (p : W × Pool Returned) :
    (enclosing host table new b).drive i v p =
      (match p.2.get? i with
        | some (.plain n) => (host.drive n v).beside
        | some (.enclosed n life) =>
          Exec.within (enclosedCell i n life) (handling host table (host.drive n) b v)
        | none => pure (.completed .nil)) p := rfl

theorem ends_drive_plain {i n : Nat} {v : Value} {w w' : W} {pool pool' : Pool Returned}
    {sight : Sight} (h : pool.get? i = some (.plain n)) :
    Exec.Ends (fun b => (enclosing host table new b).drive i v) (w, pool) sight (w', pool') ↔
      host.drive n v w = (.of sight, w') ∧ pool' = pool := by
  simp only [Exec.Ends, drive_apply, h, exists_const, Exec.beside_eq]

theorem ends_drive_enclosed {i n : Nat} {v : Value} {w w' : W} {pool pool' : Pool Returned}
    {life : Life Phase} {sight : Sight} (h : pool.get? i = some (.enclosed n life)) :
    Exec.Ends (fun b => (enclosing host table new b).drive i v) (w, pool) sight (w', pool') ↔
      ∃ life', Exec.Ends (fun b => handling host table (host.drive n) b v) (w, life) sight
        (w', life') ∧ pool' = pool.set i (.enclosed n life') := by
  have same : Exec.Ends (fun b => (enclosing host table new b).drive i v) (w, pool) sight
      (w', pool') ↔ Exec.Ends (fun b => Exec.within (enclosedCell i n life)
        (handling host table (host.drive n) b v)) (w, pool) sight (w', pool') := by
    simp only [Exec.Ends, drive_apply, h]
  rw [same, Exec.ends_within]
  constructor
  · rintro ⟨⟨w₁, life'⟩, ends, hset⟩
    obtain ⟨rfl, rfl⟩ := Prod.mk.inj hset
    exact ⟨life', ends, rfl⟩
  · rintro ⟨life', ends, rfl⟩
    exact ⟨(w', life'), ends, rfl⟩

theorem conclude_enclosing (b : Nat) (action : Value) (token : Nat) :
    conclude (enclosing host table new b) action token = (conclude host action token).beside :=
  conclude_beside host action token

theorem ends_runBody {i token : Nat} {action v : Value} {p p' : W × Pool Returned}
    {d : Except Error Decision} :
    Exec.Ends (fun b => runBody (enclosing host table new b) i action token v) p d p' ↔
      ∃ sight p₁, Exec.Ends (fun b => (enclosing host table new b).drive i v) p sight p₁ ∧
        Driven host i action token p₁.1 d p'.1 sight ∧ p'.2 = p₁.2 := by
  obtain ⟨w', pool'⟩ := p'
  constructor
  · rintro ⟨b, h⟩
    obtain ⟨sight, ⟨w₁, pool₁⟩, drive, driven⟩ := runBody_eq.mp h
    refine ⟨sight, (w₁, pool₁), ⟨b, drive⟩, ?_⟩
    rcases sight with e | x | r
    · exact ⟨⟨driven.1, congrArg Prod.fst driven.2⟩, congrArg Prod.snd driven.2⟩
    · exact ⟨⟨driven.1, congrArg Prod.fst driven.2⟩, congrArg Prod.snd driven.2⟩
    · rw [Driven, conclude_enclosing, Exec.beside_eq] at driven
      exact driven
  · rintro ⟨sight, ⟨w₁, pool₁⟩, ⟨b, drive⟩, driven, hpool⟩
    refine ⟨b, runBody_eq.mpr ⟨sight, (w₁, pool₁), drive, ?_⟩⟩
    rcases sight with e | x | r
    · exact ⟨driven.1, Prod.ext driven.2 hpool⟩
    · exact ⟨driven.1, Prod.ext driven.2 hpool⟩
    · rw [Driven, conclude_enclosing, Exec.beside_eq]
      exact ⟨driven, hpool⟩

/-- Which entry is called in the end, and how a computation that it returns is taken in. -/
inductive Calls (new : NewEntries) : Value → Value → (Nat → Returned) → Prop where
  | made (f : Value) : Calls new (new.make f) f (.enclosed · (.fresh .start))
  | kept {f : Value} (h : new.origin? f = none) : Calls new f f .plain

/-- The computation that a handler has returned gets its new identity. -/
def relabel (kind : Nat → Returned) : Nat × Option Nat → Exec (W × Pool Returned) (Nat × Option Nat)
  | (token, some n) =>
    Exec.alter fun p => ((token, some p.2.next), (p.1, (p.2.add (kind n)).2))
  | (token, none) => pure (token, none)

theorem called_enclosing {handler old : Value} {kind : Nat → Returned}
    (calls : Calls new handler old kind) (b : Nat) (action : Value) (parameters : List Value) :
    called (enclosing host table new b) handler action parameters =
      (called host old action parameters).beside >>= relabel kind := by
  have call (arguments : List Value) : (enclosing host table new b).call handler arguments =
      (host.call old arguments).beside >>= takeIn kind := by
    cases calls with
    | made f => simp only [enclosing, new.origin_make]
    | kept h => simp only [enclosing, h]
  have issue : (enclosing host table new b).issue action = (host.issue action).beside := rfl
  simp only [called, call, issue, Exec.beside_bind, bind_assoc]
  congr 1
  funext token
  congr 1
  funext returned
  unfold takeIn
  cases hn : returned.computation? with
  | none =>
    simp only [pure_bind, hn]
    rfl
  | some n => rfl

theorem ends_callHandler (quiet : ∀ n, host.note n = pure ()) {handler old action : Value}
    {kind : Nat → Returned} (calls : Calls new handler old kind) {parameters : List Value}
    {w : W} {pool : Pool Returned} {d : Except Error Decision} {p' : W × Pool Returned} :
    Exec.Ends (fun b => callHandler (enclosing host table new b) handler action parameters)
        (w, pool) d p' ↔
      ∃ r w₁, called host old action parameters w = (.of r, w₁) ∧ match r with
        | .ok (token, some n) =>
          Exec.Ends (fun b => runBody (enclosing host table new b) pool.next action token .nil)
            (w₁, (pool.add (kind n)).2) d p'
        | r => Called host action w₁ d p'.1 r ∧ p'.2 = pool := by
  have quiet' (b : Nat) (n : Note) : (enclosing host table new b).note n = pure () := by
    show (host.note n).beside = _
    rw [quiet, Exec.beside_pure]
  simp only [Exec.Ends, callHandler_eq (quiet' _), called_enclosing calls, Exec.bind_eq_of]
  constructor
  · -- Only a call that returns a computation changes the pool, by the place of that computation.
    rintro ⟨b, r, p₁, ⟨e, rfl, h⟩ | ⟨⟨token, n⟩, ⟨w₁, _⟩, h, relabels⟩, rest⟩
    · obtain ⟨h, hpool⟩ := Exec.beside_eq.mp h
      refine ⟨.error e, p₁.1, h, ?_⟩
      exact ⟨⟨rest.1, congrArg Prod.fst rest.2⟩, (congrArg Prod.snd rest.2).trans hpool⟩
    · obtain ⟨hcalled, rfl⟩ := Exec.beside_eq.mp h
      refine ⟨.ok (token, n), w₁, hcalled, ?_⟩
      cases n with
      | none =>
        obtain ⟨rfl, rfl⟩ := Exec.pure_eq_of.mp relabels
        rw [Called, conclude_enclosing, Exec.beside_eq] at rest
        exact rest
      | some n =>
        obtain ⟨rfl, rfl⟩ := Exec.pure_eq_of.mp relabels
        exact ⟨b, rest⟩
  · rintro ⟨e | ⟨token, _ | n⟩, w₁, h, rest⟩
    · refine ⟨0, .error e, (w₁, pool), Or.inl ⟨e, rfl, Exec.beside_eq.mpr ⟨h, rfl⟩⟩, ?_⟩
      exact ⟨rest.1.1, Prod.ext rest.1.2 rest.2⟩
    · refine ⟨0, .ok (token, none), (w₁, pool),
        Or.inr ⟨_, _, Exec.beside_eq.mpr ⟨h, rfl⟩, rfl⟩, ?_⟩
      rw [Called, conclude_enclosing, Exec.beside_eq]
      exact rest
    · obtain ⟨b, rest⟩ := rest
      exact ⟨b, .ok (token, some pool.next), (w₁, (pool.add (kind n)).2),
        Or.inr ⟨_, _, Exec.beside_eq.mpr ⟨h, rfl⟩, rfl⟩, rest⟩

/-! ## Computations that handlers of the outer table return -/

omit table

/-- The same decision, with the new identity of a computation that is not enclosed. -/
inductive Plain (pool : Pool Returned) : Except Error Decision → Except Error Decision → Prop where
  | settled {d} (h : Settled d) : Plain pool d d
  | forwarding {y} : Plain pool (.ok (.stop (.suspend y .forwarding)))
      (.ok (.stop (.suspend y .forwarding)))
  | body {i n x action token} (h : pool.get? i = some (.plain n)) :
      Plain pool (.ok (.stop (.suspend x (.handlerBody n action token))))
        (.ok (.stop (.suspend x (.handlerBody i action token))))

theorem Plain.stops {pool : Pool Returned} {move : Move Phase} {d : Except Error Decision}
    (h : Plain pool (.ok (.stop move)) d) : ∃ move', d = .ok (.stop move') := by
  cases h <;> exact ⟨_, rfl⟩

theorem Plain.stopped {pool : Pool Returned} {move : Move Phase} {d : Except Error Decision}
    (h : Plain pool d (.ok (.stop move))) : ∃ move', d = .ok (.stop move') := by
  cases h <;> exact ⟨_, rfl⟩

theorem driven_forth {pool : Pool Returned} {i n token : Nat} (h : pool.get? i = some (.plain n))
    {action : Value} {w w' : W} {d : Except Error Decision} {sight : Sight}
    (driven : Driven host n action token w d w' sight) :
    ∃ d', Driven host i action token w d' w' sight ∧ Plain pool d d' := by
  rcases sight with e | x | r
  · exact ⟨d, driven, .settled (by rw [driven.1]; trivial)⟩
  · obtain ⟨rfl, rfl⟩ := driven
    exact ⟨_, ⟨rfl, rfl⟩, .body h⟩
  · exact ⟨d, driven, .settled (settled_conclude driven)⟩

theorem driven_back {pool : Pool Returned} {i n token : Nat} (h : pool.get? i = some (.plain n))
    {action : Value} {w w' : W} {d' : Except Error Decision} {sight : Sight}
    (driven : Driven host i action token w d' w' sight) :
    ∃ d, Driven host n action token w d w' sight ∧ Plain pool d d' := by
  rcases sight with e | x | r
  · exact ⟨d', driven, .settled (by rw [driven.1]; trivial)⟩
  · obtain ⟨rfl, rfl⟩ := driven
    exact ⟨_, ⟨rfl, rfl⟩, .body h⟩
  · exact ⟨d', driven, .settled (settled_conclude driven)⟩

theorem runBody_forth {table : Table} {pool : Pool Returned} {i n token : Nat}
    (h : pool.get? i = some (.plain n)) {action v : Value} {w w' : W} {d : Except Error Decision}
    (run : runBody host n action token v w = (.of d, w')) :
    ∃ d', Exec.Ends (fun b => runBody (enclosing host table new b) i action token v) (w, pool) d'
      (w', pool) ∧ Plain pool d d' := by
  obtain ⟨sight, w₁, drive, driven⟩ := runBody_eq.mp run
  obtain ⟨d', driven', plain⟩ := driven_forth h driven
  exact ⟨d', ends_runBody.mpr ⟨sight, (w₁, pool), (ends_drive_plain h).mpr ⟨drive, rfl⟩, driven',
    rfl⟩, plain⟩

theorem runBody_back {table : Table} {pool : Pool Returned} {i n token : Nat}
    (h : pool.get? i = some (.plain n)) {action v : Value} {w : W} {d' : Except Error Decision}
    {p' : W × Pool Returned}
    (run : Exec.Ends (fun b => runBody (enclosing host table new b) i action token v) (w, pool) d'
      p') :
    ∃ d, runBody host n action token v w = (.of d, p'.1) ∧ Plain pool d d' ∧ p'.2 = pool := by
  obtain ⟨sight, ⟨w₁, pool₁⟩, drive, driven', hpool⟩ := ends_runBody.mp run
  obtain ⟨hdrive, rfl⟩ := (ends_drive_plain h).mp drive
  obtain ⟨d, driven, plain⟩ := driven_back h driven'
  exact ⟨d, runBody_eq.mpr ⟨sight, w₁, hdrive, driven⟩, plain, hpool⟩

/-- The table has no handler for the value. -/
def Uncalled (table : Table) (v : Value) : Prop :=
  ∀ f, table.claim v = .entry f → f.isCallable = false

theorem resolve_uncalled {table M : Table} {v : Value} (h : Uncalled M v) (b : Nat) :
    resolve (enclosing host table new b) M v = (resolve host M v).beside := by
  rw [← resolve_beside]
  unfold resolve
  cases hclaim : M.claim v with
  | notKey name => rfl
  | unclaimed => rfl
  | entry f =>
    simp only [h f hclaim]
    rfl

theorem settled_of_uncalled {M : Table} {v : Value} (h : Uncalled M v)
    (claimed : M.claim v ≠ .unclaimed) {w w' : W} {d : Except Error Decision}
    (run : resolve host M v w = (.of d, w')) : Settled d := by
  unfold resolve at run
  cases hclaim : M.claim v with
  | unclaimed => exact absurd hclaim claimed
  | notKey name =>
    simp only [hclaim] at run
    obtain ⟨e, rfl⟩ := error_of_fail run
    trivial
  | entry f =>
    simp only [hclaim, h f hclaim] at run
    rcases Exec.bind_eq_of.mp run with ⟨e, rfl, _⟩ | ⟨_, w₁, _, run⟩
    · trivial
    · obtain ⟨rfl, rfl⟩ := Exec.pure_eq_of.mp run
      trivial

theorem plain_of_uncalled (quiet : ∀ n, host.note n = pure ()) {M : Table} {v : Value}
    (h : Uncalled M v) {w w' : W} {d : Except Error Decision}
    (run : resolve host M v w = (.of d, w')) (pool : Pool Returned) : Plain pool d d := by
  by_cases claimed : M.claim v = .unclaimed
  · rw [resolve_unclaimed quiet claimed] at run
    obtain ⟨rfl, rfl⟩ := Exec.pure_eq_of.mp run
    exact .forwarding
  · exact .settled (settled_of_uncalled h claimed run)

theorem uncalled_or_called (table : Table) (v : Value) :
    Uncalled table v ∨ ∃ f, table.claim v = .entry f ∧ f.isCallable = true := by
  by_cases h : Uncalled table v
  · exact Or.inl h
  · exact Or.inr (by simpa [Uncalled] using h)

/-! ## The merged table -/

/-- The outer table, with the new entries of the inner one over it. None of them was there. -/
structure Merges (new : NewEntries) (A B M : Table) : Prop where
  claim : ∀ v, M.claim v = match A.claim v with
    | .unclaimed => B.claim v
    | .entry f => .entry (new.replace f)
    | claim => claim
  kept : ∀ v f, B.claim v = .entry f → new.origin? f = none

theorem merges_table {A B : Table} (hA : A.Regular) (hB : B.Regular)
    (kept : ∀ v f, B.claim v = .entry f → new.origin? f = none) :
    Merges new A B (Table.merge [B, new.table A]) where
  claim v := by
    rw [NewEntries.table, Table.claim_merge (hA.mapContents new.replace) hB,
      Table.claim_mapContents]
    cases A.claim v <;> rfl
  kept := kept

namespace Merges

variable {A B M : Table} (merges : Merges new A B M) {v : Value}

include merges

theorem unclaimed (h : A.claim v = .unclaimed) : M.claim v = B.claim v := by
  rw [merges.claim, h]

theorem uncalled (claimed : A.claim v ≠ .unclaimed) (h : Uncalled A v) : M.claim v = A.claim v := by
  rw [merges.claim]
  cases hclaim : A.claim v with
  | unclaimed => exact absurd hclaim claimed
  | notKey name => rfl
  | entry f => simp [NewEntries.replace, h f hclaim]

theorem called {f : Value} (h : A.claim v = .entry f) (callable : f.isCallable = true) :
    M.claim v = .entry (new.make f) := by
  rw [merges.claim, h]
  simp [NewEntries.replace, callable]

end Merges

/-! ## Handlers of the outer table -/

theorem resolve_forth (quiet : ∀ n, host.note n = pure ()) {table B M : Table} {v : Value}
    (same : M.claim v = B.claim v) (kept : ∀ f, B.claim v = .entry f → new.origin? f = none)
    {w w' : W} {d : Except Error Decision} (run : resolve host B v w = (.of d, w'))
    (pool : Pool Returned) :
    ∃ d' pool', Exec.Ends (fun b => resolve (enclosing host table new b) M v) (w, pool) d'
      (w', pool') ∧ Plain pool' d d' := by
  rcases uncalled_or_called M v with h | ⟨f, hclaim, callable⟩
  · simp only [resolve_uncalled h]
    rw [← resolve_congr same] at run
    exact ⟨d, pool, Exec.ends_const.mpr (Exec.beside_eq.mpr ⟨run, rfl⟩),
      plain_of_uncalled quiet h run pool⟩
  · have hkept := kept f (same.symm.trans hclaim)
    simp only [resolve_call hclaim callable]
    rw [resolve_call (same.symm.trans hclaim) callable] at run
    obtain ⟨r, w₁, hcalled, rest⟩ := (callHandler_eq quiet).mp run
    rcases r with e | ⟨token, _ | n⟩
    · refine ⟨d, pool, (ends_callHandler quiet (.kept hkept)).mpr
        ⟨_, w₁, hcalled, rest, rfl⟩, .settled ?_⟩
      rw [rest.1]
      trivial
    · exact ⟨d, pool, (ends_callHandler quiet (.kept hkept)).mpr ⟨_, w₁, hcalled, rest, rfl⟩,
        .settled (settled_conclude rest)⟩
    · obtain ⟨d', ends, plain⟩ := runBody_forth (Pool.get?_next pool (.plain n)) rest
      exact ⟨d', _, (ends_callHandler quiet (.kept hkept)).mpr ⟨_, w₁, hcalled, ends⟩, plain⟩

theorem resolve_back (quiet : ∀ n, host.note n = pure ()) {table B M : Table} {v : Value}
    (same : M.claim v = B.claim v) (kept : ∀ f, B.claim v = .entry f → new.origin? f = none)
    {w : W} {pool : Pool Returned} {d' : Except Error Decision} {p' : W × Pool Returned}
    (run : Exec.Ends (fun b => resolve (enclosing host table new b) M v) (w, pool) d' p') :
    ∃ d, resolve host B v w = (.of d, p'.1) ∧ Plain p'.2 d d' := by
  rcases uncalled_or_called M v with h | ⟨f, hclaim, callable⟩
  · simp only [resolve_uncalled h] at run
    obtain ⟨w', pool'⟩ := p'
    obtain ⟨run', rfl⟩ := Exec.beside_eq.mp (Exec.ends_const.mp run)
    refine ⟨d', ?_, plain_of_uncalled quiet h run' _⟩
    rw [← resolve_congr same]
    exact run'
  · have hkept := kept f (same.symm.trans hclaim)
    simp only [resolve_call hclaim callable] at run
    rw [resolve_call (same.symm.trans hclaim) callable]
    obtain ⟨r, w₁, hcalled, rest⟩ := (ends_callHandler quiet (.kept hkept)).mp run
    rcases r with e | ⟨token, _ | n⟩
    · refine ⟨d', (callHandler_eq quiet).mpr ⟨_, w₁, hcalled, rest.1⟩, .settled ?_⟩
      rw [rest.1.1]
      trivial
    · exact ⟨d', (callHandler_eq quiet).mpr ⟨_, w₁, hcalled, rest.1⟩,
        .settled (settled_conclude rest.1)⟩
    · obtain ⟨d, run, plain, hpool⟩ := runBody_back (Pool.get?_next pool (.plain n)) rest
      refine ⟨d, (callHandler_eq quiet).mpr ⟨_, w₁, hcalled, run⟩, ?_⟩
      rw [hpool]
      exact plain

end

end Dispatch

end OneShot
