import OneShot.Value

/-!
# Identity

Two values are identical if they are one and the same object. Values that are equal need not be.
-/

namespace OneShot.Value

/-- Whether two values are one object. Plain values and the empty tuple are identical if they are
equal, and no truth value is a number. -/
def identical : Value → Value → Bool
  | .nil, .nil => true
  | .bool a, .bool b => a == b
  | .int a, .int b => a == b
  | .str a, .str b => a == b
  | .tuple _ [], .tuple _ [] => true
  | .tuple a _, .tuple b _ | .frozen a _, .frozen b _ | .action a .., .action b ..
  | .suspended a _, .suspended b _ | .completed a _, .completed b _ | .resume a _, .resume b _
  | .abort a _, .abort b _ => a == b
  | .list a, .list b | .dict a, .dict b | .report a, .report b => a == b
  | .error a, .error b => a.id == b.id
  | .creator a _ _, .creator b _ _ | .native a _, .native b _ => a == b
  | .effect a, .effect b | .tactics a, .tactics b | .computation a, .computation b
  | .function a, .function b | .spec a, .spec b | .machine a, .machine b => a == b
  | .member c n, .member c' n' | .property c n, .property c' n' => c == c' && n == n'
  | .method r m, .method r' m' => r.identical r' && m == m'
  | .instanceOf a .., .instanceOf b .. => a == b
  | _, _ => false

end OneShot.Value
