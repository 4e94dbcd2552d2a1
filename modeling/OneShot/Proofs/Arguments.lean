import OneShot.Proofs.Snapshots

/-!
# The arguments of handling

Handling takes a source and a table in either order. Which of the two is the table is decided before
either is looked into, and of two mappings it is the second one. A source that can be called is
called then, once, and only afterwards the table is read. Nothing else is asked of anybody.
-/

namespace OneShot.World

variable {L : Language}

/-! ## Arguments that fit -/

/-- The source stands for this computation, which is known in this world: it is the computation, or
it gives the computation when it is called without arguments. -/
inductive Provides (host : Host (World L)) (w : World L) : Value → Nat → World L → Prop where
  | given (n : Nat) : Provides host w (.computation n) n w
  | produced {source : Value} {n : Nat} {w₁ : World L} (callable : source.isCallable)
    (run : host.call source [] w = (.ok (.computation n), w₁)) : Provides host w source n w₁

/-- A mapping all of whose contents are mappings. -/
def IsTable (w : World L) (v : Value) : Prop :=
  ∃ entries, w.mapping? v = some entries ∧ ∀ entry ∈ entries, (w.mapping? entry.2).isSome

/-- The source stands for a computation. Once it does, the other value is a table. -/
def Fits (host : Host (World L)) (w : World L) (source table : Value) : Prop :=
  ∃ n w₁, Provides host w source n w₁ ∧ w₁.IsTable table

/-- The source and the table among two values. The second one is the table if it is a mapping, else
the first one. -/
def roles? (w : World L) (x y : Value) : Option (Value × Value) :=
  if (w.mapping? y).isSome then some (x, y)
  else if (w.mapping? x).isSome then some (y, x)
  else none

/-- The source that is called when two values are handled with each other. -/
def producer? (w : World L) (x y : Value) : Option Value :=
  ((w.roles? x y).map Prod.fst).filter Value.isCallable

/-- The world in which a table is read when two values are handled with each other. -/
inductive Reached (host : Host (World L)) (w : World L) (x y : Value) : World L → Prop where
  | at_once (silent : w.producer? x y = none) : Reached host w x y w
  | called {p produced : Value} {w₁ : World L} (one : w.producer? x y = some p)
    (run : host.call p [] w = (.ok produced, w₁)) : Reached host w x y w₁

/-- Handling fails with a type error in the world in which the table is read. -/
def Refuses (host : Host (World L)) (w : World L) (x y : Value) : Prop :=
  ∃ cause w₁, cause.kind = .type ∧ Reached host w x y w₁ ∧ handle host x y w = fail cause w₁

/-- Handling ends as the producer does, which gives no value. -/
def Forwards (host : Host (World L)) (w : World L) (x y : Value) : Prop :=
  ∃ p w₁, w.producer? x y = some p ∧
    ((∃ e, host.call p [] w = (.raised e, w₁) ∧ handle host x y w = (.raised e, w₁)) ∨
      host.call p [] w = (.exhausted, w₁) ∧ handle host x y w = (.exhausted, w₁))

/-- Handling gives no value, be it that it refuses or that the producer gives none. -/
def Fails (host : Host (World L)) (w : World L) (x y : Value) : Prop :=
  Refuses host w x y ∨ Forwards host w x y

/-- What becomes of a source that has been called. Nothing is asked of anybody on the way. -/
def attach (produced table : Value) : Exec (World L) Value := do
  match produced.computation? with
  | some n => spawn "_handle" (.handling n (← readTable table) .start)
  | none => fail (.notProduced produced.typeName)

/-- A host that has each request remembered before it is answered. -/
def overheard (remember : Request → World L → World L) (host : Host (World L)) : Host (World L) :=
  World.host
    (fun n v => do
      Exec.modify (remember (.drive n v))
      host.drive n v)
    (fun f arguments => do
      Exec.modify (remember (.call f arguments))
      host.call f arguments)

/-! ## Mappings -/

theorem isMapping_eq (w : World L) (v : Value) : isMapping v w = (.ok (w.mapping? v).isSome, w) :=
  rfl

theorem read_noMapping {w : World L} {v : Value} (h : w.mapping? v = none) :
    Exec.read (fun w => w.mapping? v) w = (.ok none, w) := by
  rw [← h]
  rfl

theorem computation?_callable {v : Value} (h : v.isCallable) : v.computation? = none := by
  cases v with
  | computation n => cases h
  | _ => rfl

/-! ## Tables -/

theorem holdsAll_of_mappings {w : World L} {entries : Assoc Value}
    (h : ∀ entry ∈ entries, (w.mapping? entry.2).isSome) : ∃ table, w.HoldsAll entries table := by
  induction entries with
  | nil => exact ⟨[], .nil⟩
  | cons entry entries ih =>
    obtain ⟨inner, found⟩ := Option.isSome_iff_exists.mp (h entry List.mem_cons_self)
    obtain ⟨table, rest⟩ := ih fun entry mem => h entry (List.mem_cons_of_mem _ mem)
    exact ⟨(entry.1, inner) :: table, .cons ⟨rfl, found⟩ rest⟩

theorem IsTable.holds {w : World L} {v : Value} (h : w.IsTable v) : ∃ table, w.Holds v table := by
  obtain ⟨entries, found, inner⟩ := h
  obtain ⟨table, all⟩ := holdsAll_of_mappings inner
  exact ⟨table, entries, found, all⟩

theorem readEntries_refuses {w : World L} {entries : Assoc Value}
    (h : ¬∀ entry ∈ entries, (w.mapping? entry.2).isSome) :
    ∃ effect name, readEntries entries w = fail (.notEntries effect name) w := by
  induction entries with
  | nil => exact absurd (fun _ mem => nomatch mem) h
  | cons entry entries ih =>
    obtain ⟨effect, v⟩ := entry
    simp only [readEntries]
    cases found : w.mapping? v with
    | none =>
      exact ⟨effect, v.typeName, by rw [Exec.bind_ok (read_noMapping found)]⟩
    | some inner =>
      have rest : ¬∀ entry ∈ entries, (w.mapping? entry.2).isSome := fun all =>
        h (List.forall_mem_cons.mpr ⟨by rw [found]; rfl, all⟩)
      obtain ⟨effect', name, run⟩ := ih rest
      refine ⟨effect', name, ?_⟩
      rw [Exec.bind_ok (read_mapping found)]
      exact Exec.bind_raised run

theorem readTable_refuses {w : World L} {v : Value} (mapping : (w.mapping? v).isSome)
    (h : ¬w.IsTable v) : ∃ effect name, readTable v w = fail (.notEntries effect name) w := by
  obtain ⟨entries, found⟩ := Option.isSome_iff_exists.mp mapping
  obtain ⟨effect, name, run⟩ := readEntries_refuses fun all => h ⟨entries, found, all⟩
  refine ⟨effect, name, ?_⟩
  rw [readTable, Exec.bind_ok (read_mapping found)]
  exact run

/-! ## The two orders -/

theorem handle_eq (host : Host (World L)) (w : World L) (x y : Value) :
    handle host x y w =
      match w.roles? x y with
      | some (source, table) => handleWith host source (readTable table) w
      | none => fail (.noTable x.typeName y.typeName) w := by
  rw [handle, Exec.bind_ok (isMapping_eq w y), roles?]
  by_cases second : (w.mapping? y).isSome
  · rw [if_pos second, if_pos second]
  rw [if_neg second, if_neg second, Exec.bind_ok (isMapping_eq w x)]
  by_cases first : (w.mapping? x).isSome
  · rw [if_pos first, if_pos first]
  · rw [if_neg first, if_neg first]

section

variable {w : World L} {x y source table : Value}

theorem roles?_of_mapping (mapping : (w.mapping? table).isSome) :
    w.roles? source table = some (source, table) := if_pos mapping

theorem mapping_of_roles (roles : w.roles? x y = some (source, table)) :
    (w.mapping? table).isSome := by
  unfold roles? at roles
  split at roles
  · cases roles
    assumption
  · split at roles <;> cases roles
    assumption

theorem roles?_comm (alone : w.mapping? x = none ∨ w.mapping? y = none) :
    w.roles? x y = w.roles? y x := by
  obtain first | second := alone
  · rw [roles?, roles?, first]
    rfl
  · rw [roles?, roles?, second]
    rfl

theorem producer?_eq (roles : w.roles? x y = some (source, table)) :
    w.producer? x y = if source.isCallable then some source else none := by
  rw [producer?, roles, Option.map_some, Option.filter_some]

end

theorem handleWith_refuses (host : Host (World L)) (read : Exec (World L) Table) {source : Value}
    (w : World L) (other : source.computation? = none) (fixed : ¬source.isCallable) :
    handleWith host source read w = fail (.notConvertible source.typeName) w := by
  rw [handleWith, toComputation, other]
  simp only [fixed]
  rfl

theorem handleWith_callable (host : Host (World L)) (table : Value) {source : Value}
    (callable : source.isCallable) :
    handleWith host source (readTable table) =
      (do attach (← host.call source []) table) := by
  simp only [handleWith, toComputation, computation?_callable callable, callable, if_true,
    bind_assoc]
  refine congrArg (host.call source [] >>= ·) (funext fun produced => ?_)
  cases found : produced.computation? with
  | none => simp only [attach, found]; rfl
  | some n => simp only [attach, found]; rfl

theorem attach_refuses {w : World L} {table : Value} (produced : Value)
    (mapping : (w.mapping? table).isSome)
    (unfit : ∀ n, produced = .computation n → ¬w.IsTable table) :
    ∃ cause, cause.kind = .type ∧ attach produced table w = fail cause w := by
  cases made : produced.computation? with
  | none => exact ⟨.notProduced produced.typeName, rfl, by simp only [attach, made]⟩
  | some n =>
    obtain ⟨effect, name, run⟩ :=
      readTable_refuses mapping (unfit n (Value.eq_of_computation? made))
    refine ⟨.notEntries effect name, rfl, ?_⟩
    simp only [attach, made]
    exact Exec.bind_raised run

/-! ## Arguments that do not fit -/

section

variable {host : Host (World L)} {w : World L} {x y source table : Value}

theorem fails_callable (roles : w.roles? x y = some (source, table)) (callable : source.isCallable)
    (unfit : ¬Fits host w source table) : Fails host w x y := by
  have one : w.producer? x y = some source := (producer?_eq roles).trans (if_pos callable)
  have run := handle_eq host w x y
  simp only [roles, handleWith_callable host table callable] at run
  rcases called : host.call source [] w with ⟨produced | e | _, w₁⟩
  · left
    rw [Exec.bind_ok called] at run
    obtain ⟨cause, type, refused⟩ := attach_refuses produced
      ((isSome_mapping? w w₁ table).symm.trans (mapping_of_roles roles))
      fun n made isTable => unfit ⟨n, w₁, .produced callable (made ▸ called), isTable⟩
    exact ⟨cause, w₁, type, .called one called, run.trans refused⟩
  · exact .inr ⟨source, w₁, one, .inl ⟨e, called, run.trans (Exec.bind_raised called)⟩⟩
  · exact .inr ⟨source, w₁, one, .inr ⟨called, run.trans (Exec.bind_exhausted called)⟩⟩

theorem fails_of_roles (roles : w.roles? x y = some (source, table))
    (unfit : ¬Fits host w source table) : Fails host w x y := by
  by_cases callable : source.isCallable
  · exact fails_callable roles callable unfit
  have reached : Reached host w x y w := .at_once ((producer?_eq roles).trans (if_neg callable))
  have run := handle_eq host w x y
  simp only [roles] at run
  left
  cases made : source.computation? with
  | none =>
    exact ⟨_, w, rfl, reached, run.trans (handleWith_refuses host _ w made callable)⟩
  | some n =>
    obtain rfl := Value.eq_of_computation? made
    obtain ⟨cause, type, refused⟩ := attach_refuses (.computation n) (mapping_of_roles roles)
      fun m same isTable => unfit ⟨n, w, .given n, isTable⟩
    exact ⟨cause, w, type, reached, run.trans refused⟩

theorem fails_of_no_roles (host : Host (World L)) (roles : w.roles? x y = none) :
    Fails host w x y := by
  refine .inl ⟨.noTable x.typeName y.typeName, w, rfl, .at_once ?_, ?_⟩
  · rw [producer?, roles]
    rfl
  · rw [handle_eq, roles]

theorem Fits.mapping (h : Fits host w source table) : (w.mapping? table).isSome := by
  obtain ⟨n, w₁, -, entries, found, -⟩ := h
  rw [isSome_mapping? w w₁, found]
  rfl

theorem fits_roles : (∃ source table, w.roles? x y = some (source, table) ∧
    Fits host w source table) ↔ Fits host w x y ∨ w.mapping? y = none ∧ Fits host w y x := by
  constructor
  · rintro ⟨source, table, roles, fits⟩
    unfold roles? at roles
    split at roles
    · cases roles
      exact .inl fits
    · rename_i second
      split at roles <;> cases roles
      exact .inr ⟨Option.not_isSome_iff_eq_none.mp second, fits⟩
  · rintro (fits | ⟨second, fits⟩)
    · exact ⟨x, y, roles?_of_mapping fits.mapping, fits⟩
    · exact ⟨y, x, (roles?_comm (.inr second)).trans (roles?_of_mapping fits.mapping), fits⟩

theorem fails_of_unfit (unfit : ¬Fits host w x y)
    (unfit' : w.mapping? y = none → ¬Fits host w y x) : Fails host w x y := by
  cases roles : w.roles? x y with
  | none => exact fails_of_no_roles host roles
  | some parts =>
    refine fails_of_roles roles fun fits => ?_
    obtain fits | ⟨second, fits⟩ := fits_roles.mp ⟨_, _, roles, fits⟩
    · exact unfit fits
    · exact unfit' second fits

end

/-! ## Arguments that do fit -/

/-- Handling a source with a table gives a new computation over the computation that the source
stands for, in either order unless the source is a mapping too. It holds what the table holds once
that is known, and no other computation is any different then. -/
def Attached (host : Host (World L)) (w : World L) (source table : Value) : Prop :=
  ∃ n w₁ entries w₂, Provides host w source n w₁ ∧ w₁.Holds table entries ∧
    Handled host source table w w₁.computations.next w₂ ∧
    (lifeCell w₁.computations.next).get w₂ = .fresh (.handling n entries .start) ∧
    ∀ m < w₁.computations.next, (lifeCell m).get w₂ = (lifeCell m).get w₁

theorem Provides.toComputation {host : Host (World L)} {w w₁ : World L} {source : Value} {n : Nat}
    (h : Provides host w source n w₁) : toComputation host source w = (.ok n, w₁) := by
  cases h with
  | given => rfl
  | produced callable run =>
    simp only [World.toComputation, computation?_callable callable, callable, if_true]
    exact Exec.bind_ok run

theorem attached_of_fits {host : Host (World L)} {w : World L} {source table : Value}
    (h : Fits host w source table) : Attached host w source table := by
  obtain ⟨n, w₁, provides, isTable⟩ := h
  obtain ⟨entries, holds⟩ := isTable.holds
  exact ⟨n, w₁, entries, _, provides, holds, handled_holds provides.toComputation holds,
    life_addComputation _ _ _, fun m old => life_addComputation_of_lt _ _ old⟩

theorem Fails.not_ok {host : Host (World L)} {w : World L} {x y : Value} (h : Fails host w x y)
    (v : Value) (w' : World L) : handle host x y w ≠ (.ok v, w') := by
  obtain ⟨cause, w₁, -, -, run⟩ | ⟨p, w₁, -, ⟨e, -, run⟩ | ⟨-, run⟩⟩ := h
  all_goals
    rw [run]
    exact fun h => nomatch h

theorem handle_ok_iff (host : Host (World L)) (w : World L) (x y : Value) :
    (∃ v w', handle host x y w = (.ok v, w')) ↔
      Fits host w x y ∨ w.mapping? y = none ∧ Fits host w y x := by
  constructor
  · rintro ⟨v, w', run⟩
    by_contra unfit
    rw [not_or, not_and] at unfit
    exact (fails_of_unfit unfit.1 unfit.2).not_ok v w' run
  · rintro (fits | ⟨second, fits⟩)
    · obtain ⟨n, w₁, entries, w₂, -, -, ⟨run, -⟩, -⟩ := attached_of_fits fits
      exact ⟨_, w₂, run⟩
    · obtain ⟨n, w₁, entries, w₂, -, -, ⟨-, run⟩, -⟩ := attached_of_fits fits
      exact ⟨_, w₂, run second⟩

theorem handle_comm (host : Host (World L)) {w : World L} {x y : Value}
    (one : (w.mapping? x).isSome ≠ (w.mapping? y).isSome) :
    handle host x y w = handle host y x w := by
  cases first : w.mapping? x with
  | none =>
    cases second : w.mapping? y with
    | none => exact absurd (by rw [first, second]) one
    | some entries =>
      have mapping : (w.mapping? y).isSome := by rw [second]; rfl
      rw [handle_eq, handle_eq, ← roles?_comm (.inl first), roles?_of_mapping mapping]
  | some entries =>
    have mapping : (w.mapping? x).isSome := by rw [first]; rfl
    have second : w.mapping? y = none := by
      rw [mapping] at one
      simpa using one.symm
    rw [handle_eq, handle_eq, roles?_comm (.inr second), roles?_of_mapping mapping]

/-! ## Requests -/

/-- What a host is asked while two values are handled with each other: the producer is called
without arguments. -/
def remembered (remember : Request → World L → World L) (w : World L) (x y : Value) : World L :=
  match w.producer? x y with
  | some p => remember (.call p []) w
  | none => w

theorem handleWith_overheard (remember : Request → World L → World L) (host : Host (World L))
    (w : World L) (source table : Value) :
    handleWith (overheard remember host) source (readTable table) w =
      handleWith host source (readTable table)
        (if source.isCallable then remember (.call source []) w else w) := by
  by_cases callable : source.isCallable
  · rw [if_pos callable, handleWith_callable _ table callable,
      handleWith_callable _ table callable]
    rfl
  · rw [if_neg callable, handleWith, handleWith, toComputation, toComputation]
    simp only [callable]
    rfl

theorem handle_overheard (remember : Request → World L → World L) (host : Host (World L))
    (w : World L) (x y : Value) :
    handle (overheard remember host) x y w = handle host x y (remembered remember w x y) := by
  -- The roles are the same in the world with the memory.
  have same (v : Value) := isSome_mapping? (remembered remember w x y) w v
  have roles' : (remembered remember w x y).roles? x y = w.roles? x y := by
    rw [roles?, roles?, same, same]
  rw [handle_eq, handle_eq, roles']
  cases roles : w.roles? x y with
  | none =>
    have silent : w.producer? x y = none := by
      rw [producer?, roles]
      rfl
    rw [remembered, silent]
  | some parts =>
    obtain ⟨source, table⟩ := parts
    simp only [handleWith_overheard, remembered, producer?_eq roles]
    by_cases callable : source.isCallable
    · rw [if_pos callable, if_pos callable]
    · rw [if_neg callable, if_neg callable]

namespace SmallArguments

def language : Language := ⟨Unit, Unit, Unit⟩

/-- Puts a mapping where the table holds a number. -/
def repair (w : World language) : World language :=
  { w with dicts := w.dicts.set 1 [(.str "a", .dict 0)] }

def producing : Host (World language) :=
  World.host (fun _ _ => Exec.exhausted) fun _ _ => do
    Exec.modify repair
    return .computation 0

def start : World language :=
  { memory := ()
    dicts := ⟨#[[], [(.str "a", .int 5)]]⟩
    computations := ⟨#[{ name := "c", life := .fresh (.task ()) }]⟩ }

theorem unfit_start (source : Value) (h : source.computation? = none)
    (fixed : ¬source.isCallable) (table : Value) : ¬Fits producing start source table := by
  rintro ⟨n, w₁, ⟨⟩ | callable, -⟩
  · cases h
  · exact fixed callable

end SmallArguments

namespace SmallArguments

/-- Calling a function gives a new computation. -/
def program : Program language where
  call _ _ _ _ := spawn "c" (.task ())
  advance _ _ _ _ := Exec.exhausted
  delegate? _ := none
  names _ _ := false
  lost _ _ := []

def calling : Host (World language) := kernel program 0 4

/-- A world with the two classes that others derive from. -/
def bare : World language :=
  { memory := ()
    classes :=
      ⟨#[⟨"Spec", "", true, [], [], [baseSpec]⟩, ⟨"dict", "", false, [], [], [baseMapping]⟩]⟩ }

/-- A mapping that can be called, and a plain one. -/
def mappings : Exec (World language) (Value × Value) := do
  let function ← Exec.alter (addFunction ())
  let cls ← declareClass "Table" "m" .nil [baseMapping]
    [.attribute ⟨callAttribute, .constant function⟩]
  let callable ← calling.call cls []
  return (callable, ← Exec.alter (addDict []))

def callable : Value := .instanceOf 0 2 "Table" true (some 0)

/-- The world in which the two mappings have been made. -/
def stocked : World language :=
  { bare with
    dicts := ⟨#[[], []]⟩
    functions := ⟨#[()]⟩
    classes := (bare.classes.add ⟨"Table", "m", false, [],
      [⟨callAttribute, .constant (.function 0)⟩], [2, baseMapping]⟩).2
    nextId := 1 }

theorem mappings_bare : mappings bare = (.ok (callable, .dict 1), stocked) := rfl

theorem callable_fits : Fits calling stocked callable (.dict 1) :=
  have made : calling.call callable [] stocked =
    (.ok (.computation 0), (stocked.addComputation "c" (.task ())).2) := rfl
  ⟨0, _, .produced rfl made, [], rfl, nofun⟩

end SmallArguments

end OneShot.World
