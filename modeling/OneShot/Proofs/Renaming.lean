import Mathlib.Data.List.Forall2
import Mathlib.Logic.Equiv.Basic
import OneShot.Proofs.Matching
import OneShot.Proofs.Namespaces

/-!
# Renaming effects

A renaming gives effects other names and tells the same names apart. Nothing that handles an action
can tell it from its renamed copy, if the tables are renamed as well.
-/

namespace OneShot

/-- A renaming of effects. It tells the same names apart. What cannot be a name stays as it is. -/
structure Renaming where
  rename : Value → Value
  same : ∀ k q, (rename k).same (rename q) = k.same q
  isKey : ∀ k, (rename k).isKey = k.isKey
  fixed : ∀ k, k.isKey = false → rename k = k

namespace Renaming

/-! ## Renamings of texts -/

/-- The names that are texts, under a function that never gives two of them one name. -/
def ofTexts (f : String → String) (injective : Function.Injective f) : Renaming where
  rename
    | .str s => .str (f s)
    | v => v
  same k q := by
    cases k with
    | str s =>
      cases q with
      | str t => simp [Value.same, injective.eq_iff]
      | _ => rfl
    | _ => cases q <;> rfl
  isKey k := by cases k <;> rfl
  fixed k h := by
    cases k with
    | str s => cases h
    | _ => rfl

/-- Two texts change places. -/
def swap (a b : String) : Renaming := ofTexts (Equiv.swap a b) (Equiv.swap a b).injective

@[simp] theorem rename_swap_left (a b : String) : (swap a b).rename (.str a) = .str b := by
  simp [swap, ofTexts]

/-! ## Renamed actions and tables -/

variable (r : Renaming)

/-- An action of the renamed effect. Everything else stays as it is. -/
def action : Value → Value
  | .action i effect operation t parameters => .action i (r.rename effect) operation t parameters
  | v => v

/-- The same entries under the new names. -/
def table (t : Table) : Table := t.map fun e => (r.rename e.1, e.2)

theorem action_swap {a b : String} {x : Value} (other : ∀ i o t parameters,
    x ≠ .action i (.str a) o t parameters ∧ x ≠ .action i (.str b) o t parameters) :
    (swap a b).action x = x := by
  cases x with
  | action i effect o t parameters =>
    cases effect with
    | str s =>
      have left : s ≠ a := by
        rintro rfl
        exact (other i o t parameters).1 rfl
      have right : s ≠ b := by
        rintro rfl
        exact (other i o t parameters).2 rfl
      simp [action, swap, ofTexts, Equiv.swap_apply_of_ne_of_ne left right]
    | _ => rfl
  | _ => rfl

/-- The renamed copy of a value. -/
def Copy (x y : Value) : Prop := y = r.action x

theorem parametersOf_action (x : Value) :
    Dispatch.parametersOf (r.action x) = Dispatch.parametersOf x := by
  cases x <;> rfl

theorem get?_table (t : Table) (effect : Value) :
    (r.table t).get? (r.rename effect) = t.get? effect := by
  induction t with
  | nil => rfl
  | cons e t ih =>
    rw [Assoc.get?_cons, ← ih, table, List.map_cons, Assoc.get?_cons, r.same]
    rfl

/-- A renamed table says of a renamed action what the table says of the action. -/
theorem claim_table (t : Table) (x : Value) : (r.table t).claim (r.action x) = t.claim x := by
  cases x with
  | action i effect operation u parameters =>
    simp only [action, Table.claim, r.isKey, r.get?_table]
    by_cases key : effect.isKey
    · simp only [if_pos key]
    · simp only [if_neg key, r.fixed effect (by simpa using key)]
  | _ => rfl

theorem mirrors_table (t : Table) :
    t.Mirrors r.Copy (fun f => f.isCallable = true ∧ ∃ x, t.claim x = .entry f) (r.table t) where
  claim h := by rw [h, r.claim_table]
  parameters h := by rw [h, r.parametersOf_action]
  entries claimed callable := ⟨callable, _, claimed⟩

@[simp] theorem table_swap (a b : String) (entries : Assoc Value) :
    (swap a b).table [(.str a, entries)] = [(.str b, entries)] := by
  simp [table]

theorem unclaimed_of_ne {a b : String} (other : a ≠ b) (entries : Assoc Value) (i : Nat)
    (operation : Value) (t : Nat) (parameters : List Value) :
    Table.claim [(.str a, entries)] (.action i (.str b) operation t parameters) = .unclaimed := by
  have apart : (Value.str a).same (.str b) = false := by simp [Value.same, other]
  simp [Table.claim, Assoc.get?_cons, World.State.isKey_str, apart]

/-! ## Errors -/

/-- The same error, but for the name in it. The text of an error about an action shows the name. -/
structure Fault (e e' : Error) : Prop where
  id : e.id = e'.id
  cause : e.cause = e'.cause ∨ Cause.Mirrors r.Copy e.cause e'.cause
  text : e.kind ≠ .contract → e.kind ≠ .unhandled → e.argument = e'.argument

variable {r}

theorem kind_of_mirrors {N : Value → Value → Prop} {c c' : Cause Value} (h : Cause.Mirrors N c c') :
    c.kind = c'.kind := by
  cases h <;> rfl

theorem Fault.kind {e e' : Error} (h : r.Fault e e') : e.kind = e'.kind := by
  obtain same | mirrors := h.cause
  · exact congrArg Cause.kind same
  · exact kind_of_mirrors mirrors

end Renaming

/-! ## Worlds -/

namespace World

variable {L : Language} {r : Renaming} {R : World L → World L → Prop}

/-- The worlds of a program and of its renamed copy: they have given out the same identities, and
the same is decided about the tokens. What the loop does to one of them it can do to the other. -/
structure Relabels (r : Renaming) (R : World L → World L → Prop) : Prop where
  nextId : ∀ {w w'}, R w w' → w.nextId = w'.nextId
  nextToken : ∀ {w w'}, R w w' → w.tokens.next = w'.tokens.next
  decided : ∀ {w w'}, R w w' → ∀ t,
    (w.tokens.get? t).bind (·.outcome) = (w'.tokens.get? t).bind (·.outcome)
  issued : ∀ {w w' x}, R w w' → R (w.addToken x).2 (w'.addToken (r.action x)).2
  taken : ∀ {w w'} count, R w w' → R (w.takeIds count).2 (w'.takeIds count).2

namespace Relabels

variable (relabels : Relabels r R)

include relabels

theorem mint {c c' : Cause Value} (h : Cause.Mirrors r.Copy c c') :
    Exec.Matches R r.Fault r.Fault (World.mint c) (World.mint c') := by
  refine Exec.matches_alter fun w w' hw => ⟨⟨relabels.nextId hw, Or.inr h, ?_⟩, relabels.taken 1 hw⟩
  intro plain plain'
  cases h with
  | contract => exact absurd rfl plain
  | unhandled => exact absurd rfl plain'
  | refused => rfl

theorem issue {x y : Value} (h : r.Copy x y) :
    Exec.Matches R r.Fault Eq (World.issue x) (World.issue y) := by
  obtain rfl : y = r.action x := h
  exact Exec.matches_alter fun w w' hw => ⟨relabels.nextToken hw, relabels.issued hw⟩

theorem outcome (t : Nat) :
    Exec.Matches R r.Fault Eq (World.outcome t) (World.outcome t) :=
  Exec.matches_read fun _ _ hw => relabels.decided hw t

theorem host {F : Value → Prop} {drive drive' : Nat → Value → Exec (World L) Step}
    {call call' : Value → List Value → Exec (World L) Value}
    (drives : ∀ n v, Exec.Matches R r.Fault (Step.Mirrors r.Copy) (drive n v) (drive' n v))
    (calls : ∀ f arguments, F f →
      Exec.Matches R r.Fault Eq (call f arguments) (call' f arguments)) :
    (World.host drive call).quiet.Mirrors R r.Fault r.Copy F (World.host drive' call').quiet where
  drive := drives
  call := calls
  issue := relabels.issue
  outcome := relabels.outcome
  note _ := Exec.matches_pure rfl
  mint := relabels.mint

end Relabels

/-- The same world, but for the names of the actions that tokens are for. -/
def Relabelled (r : Renaming) (w w' : World L) : Prop :=
  w' = { w with tokens := ⟨w.tokens.items.map fun t => { t with action := r.action t.action }⟩ }

theorem relabels_relabelled (r : Renaming) :
    Relabels r (Relabelled r : World L → World L → Prop) where
  nextId h := by
    subst h
    rfl
  nextToken h := by
    subst h
    simp [Pool.next]
  decided h t := by
    subst h
    simp only [Pool.get?, Array.getElem?_map, Option.bind_map]
    rfl
  issued h := by
    subst h
    simp [Relabelled, addToken, Pool.add, Token.pending]
  taken count h := by
    subst h
    rfl

theorem relabelled_untouched (r : Renaming) {w : World L} (untouched : w.tokens = {}) :
    Relabelled r w w := by
  have kept : (⟨w.tokens.items.map fun t => { t with action := r.action t.action }⟩ : Pool Token) =
      w.tokens := by
    simp [untouched]
  rw [Relabelled, kept]

end World

end OneShot
