/-!
# Pools

Contents under identities. Identities are given out in order and none is given out twice.
-/

namespace OneShot

structure Pool (α : Type) where
  items : Array α := #[]

namespace Pool

variable {α : Type}

def get? (p : Pool α) (id : Nat) : Option α := p.items[id]?

/-- The identity that the next content gets. -/
def next (p : Pool α) : Nat := p.items.size

def add (p : Pool α) (a : α) : Nat × Pool α := (p.items.size, ⟨p.items.push a⟩)

/-- Replaces a content. An identity that was not given out changes nothing. -/
def set (p : Pool α) (id : Nat) (a : α) : Pool α := ⟨p.items.setIfInBounds id a⟩

theorem get?_add (p : Pool α) (a : α) : (p.add a).2.get? (p.add a).1 = some a := by
  simp [get?, add]

theorem get?_next (p : Pool α) (a : α) : (p.add a).2.get? p.next = some a := p.get?_add a

theorem next_add (p : Pool α) (a : α) : (p.add a).2.next = p.next + 1 := by
  simp [add, next]

theorem lt_next {p : Pool α} {id : Nat} {a : α} (h : p.get? id = some a) : id < p.next :=
  (Array.getElem?_eq_some_iff.mp h).1

theorem get?_of_next_le {p : Pool α} {id : Nat} (h : p.next ≤ id) : p.get? id = none :=
  Array.getElem?_eq_none h

theorem get?_add_of_lt (p : Pool α) (a : α) {id : Nat} (h : id < p.next) :
    (p.add a).2.get? id = p.get? id := by
  simp only [next] at h
  simp [get?, add, Array.getElem?_push, Nat.ne_of_lt h]

theorem get?_set_of_ne (p : Pool α) (a : α) {i j : Nat} (h : i ≠ j) :
    (p.set i a).get? j = p.get? j := by
  simp [get?, set, h]

theorem get?_set_self {p : Pool α} {id : Nat} {a : α} (h : p.get? id = some a) (b : α) :
    (p.set id b).get? id = some b := by
  obtain ⟨known, -⟩ := Array.getElem?_eq_some_iff.mp h
  simp [get?, set, known]

end Pool

end OneShot
