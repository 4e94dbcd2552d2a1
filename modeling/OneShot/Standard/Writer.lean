import OneShot.World.Access

/-!
# Writer

Messages are collected in a live list.
-/

namespace OneShot.World

variable {L : Language}

/-- Adds an item at the end of a list. -/
def append (list : Nat) (v : Value) : Exec (World L) Unit :=
  Exec.modify fun w => { w with lists := w.lists.set list (w.list list ++ [v]) }

namespace Writer

def tell (host : Host (World L)) (messages : Nat) (message tactics : Value) :
    Exec (World L) Unit := do
  append messages message
  host.settle tactics (.resume .nil)

/-- Answers a copy of the messages so far. -/
def listen (host : Host (World L)) (messages : Nat) (tactics : Value) : Exec (World L) Unit := do
  let resume ← access tactics "resume"
  let copy ← Exec.alter fun w => w.addList (w.list messages)
  let _ ← host.call resume [copy]

end Writer

end OneShot.World
