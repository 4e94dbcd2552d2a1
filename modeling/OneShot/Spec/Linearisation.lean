/-!
# Linearisation of classes

The order in which a class and its bases are searched. The order of every base is kept, the
order in which the bases are listed is kept, and every class comes before its own bases. Some
lists of bases have no such order.
-/

namespace OneShot.Spec

variable {α : Type} [DecidableEq α]

/-- Whether no order has the class after its first entry. -/
def isFree (orders : List (List α)) (a : α) : Bool :=
  orders.all fun order => !order.tail.contains a

/-- The first entry of the first order that starts with a free class. -/
def nextHead? (orders : List (List α)) : Option α :=
  (orders.filterMap List.head?).find? (isFree orders)

/-- Takes a class away from the front of every order that starts with it. -/
def dropHead (a : α) : List α → List α
  | [] => []
  | head :: rest => if head = a then rest else head :: rest

/-- Merges orders into one that keeps them all. Every round uses up at least one of their
entries, so their total length bounds the rounds. -/
def mergeOrders : Nat → List (List α) → Option (List α)
  | rounds, orders =>
    if orders.all List.isEmpty then some []
    else match rounds with
      | 0 => none
      | rounds + 1 =>
        match nextHead? orders with
        | none => none
        | some a => (mergeOrders rounds (orders.map (dropHead a))).map (a :: ·)

/-- The linearisation of a class from those of its bases, without the class itself. -/
def linearise (bases : List α) (order : α → List α) : Option (List α) :=
  if bases.eraseDups.length = bases.length then
    let orders := bases.map order ++ [bases]
    mergeOrders (orders.flatten.length) orders
  else none

end OneShot.Spec
