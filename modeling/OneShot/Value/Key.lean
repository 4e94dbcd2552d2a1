import OneShot.Value

/-!
# Keys

Two values are the same key if they are of one class with the same parts. What can change, and
what has no parts, is the same key only as itself. A truth value is the same key as its number.
-/

namespace OneShot.Value

mutual

/-- Equality of keys. It never looks into the world. -/
def same : Value → Value → Bool
  | .nil, .nil => true
  | .bool a, .bool b => a == b
  | .int a, .int b => a == b
  | .bool a, .int b => (if a then 1 else 0) == b
  | .int a, .bool b => a == (if b then 1 else 0)
  | .str a, .str b => a == b
  | .tuple _ xs, .tuple _ ys => sameAll xs ys
  | .frozen _ xs, .frozen _ ys => xs.length == ys.length && within xs ys
  | .action _ e o _ ps, .action _ e' o' _ ps' => e.same e' && o.same o' && sameAll ps ps'
  | .suspended _ a, .suspended _ b => a.same b
  | .completed _ a, .completed _ b => a.same b
  | .resume _ a, .resume _ b => a.same b
  | .abort _ a, .abort _ b => a.same b
  | .list a, .list b => a == b
  | .dict a, .dict b => a == b
  | .report a, .report b => a == b
  | .error a, .error b => a.id == b.id
  | .creator a _ _, .creator b _ _ => a == b
  | .effect a, .effect b => a == b
  | .tactics a, .tactics b => a == b
  | .computation a, .computation b => a == b
  | .function a, .function b => a == b
  | .native a _, .native b _ => a == b
  | .method r m, .method r' m' => r.same r' && m == m'
  | .spec a, .spec b => a == b
  | .member c n, .member c' n' => c == c' && n == n'
  | .property c n, .property c' n' => c == c' && n == n'
  | .instanceOf a .., .instanceOf b .. => a == b
  | .machine a, .machine b => a == b
  | _, _ => false

def sameAll : List Value → List Value → Bool
  | [], [] => true
  | x :: xs, y :: ys => x.same y && sameAll xs ys
  | _, _ => false

/-- Every entry of the first mapping is one of the second. -/
def within : List (Value × Value) → List (Value × Value) → Bool
  | [], _ => true
  | (k, v) :: rest, ys => ys.any (fun p => k.same p.1 && v.same p.2) && within rest ys

end

mutual

/-- The first part of a value that keeps it from being a key. What can change cannot be a key,
and nothing that holds it can. -/
def changeable? : Value → Option Value
  | .list id => some (.list id)
  | .dict id => some (.dict id)
  | .instanceOf id cls className callable (some entries) =>
    some (.instanceOf id cls className callable (some entries))
  | .report id => some (.report id)
  | .tuple _ items => firstChangeable? items
  | .frozen _ entries => firstContent? entries
  | .action _ e o _ ps =>
    match e.changeable? with
    | some v => some v
    | none =>
      match o.changeable? with
      | some v => some v
      | none => firstChangeable? ps
  | .suspended _ a | .completed _ a | .resume _ a | .abort _ a => a.changeable?
  | _ => none

def firstChangeable? : List Value → Option Value
  | [] => none
  | x :: xs =>
    match x.changeable? with
    | some v => some v
    | none => firstChangeable? xs

def firstContent? : List (Value × Value) → Option Value
  | [] => none
  | (_, v) :: rest =>
    match v.changeable? with
    | some v => some v
    | none => firstContent? rest

end

def isKey (v : Value) : Bool := v.changeable?.isNone

/-- Why a value is refused as a key. -/
def keyRefusal (v : Value) : Refusal := .notKey (v.changeable?.getD v).typeName

end OneShot.Value
