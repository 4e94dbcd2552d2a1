import OneShot.Standard.Handlers

/-!
# Mappings that are read and made

What is read of a mapping is its entries at that time. A mapping that is made is a new one.
-/

namespace OneShot.World

variable {L : Language} {w : World L} {v : Value} {entries : Assoc Value}

theorem read_mapping (h : w.mapping? v = some entries) :
    Exec.read (fun w => w.mapping? v) w = (.ok (some entries), w) := by
  rw [← h]
  rfl

theorem mapping?_dict {d : Nat} (h : w.dicts.get? d = some entries) :
    w.mapping? (.dict d) = some entries := by
  simp only [mapping?, World.dict, h, Option.getD_some]

theorem entriesOf_mapping (host : Host (World L)) (bound : Nat) (h : w.mapping? v = some entries) :
    entriesOf host bound v w = (.ok entries, w) := by
  rw [entriesOf, Exec.bind_ok (read_mapping h)]
  rfl

theorem isGiven_mapping (h : w.mapping? v = some entries) : w.isGiven v = !entries.isEmpty := by
  cases v with
  | dict d | frozen id own =>
    cases h
    rfl
  | instanceOf id cls className callable own =>
    cases own <;> cases h
    rfl
  | _ => cases h

theorem givenEntries_mapping (host : Host (World L)) (bound : Nat)
    (h : w.mapping? v = some entries) : givenEntries host bound v w = (.ok entries, w) := by
  rw [givenEntries, Exec.bind_ok (rfl : Exec.read (fun w => w.isGiven v) w = _)]
  by_cases isGiven : w.isGiven v
  · rw [if_pos isGiven]
    exact entriesOf_mapping host bound h
  · have empty : entries = [] := by simpa [isGiven_mapping h] using isGiven
    rw [if_neg isGiven, empty]
    rfl

end OneShot.World
