import OneShot.Script.Primitive

/-!
# The syntax of scripts

A script is a list of expressions. Functions and computations have bodies of statements.
-/

namespace OneShot.Script

/-- A value written out. Its lists and mappings are made anew each time. -/
inductive Literal where
  | nil
  | bool (b : Bool)
  | int (n : Int)
  | str (s : String)
  | list (items : List Literal)
  | tuple (items : List Literal)
  | dict (entries : List (Literal × Literal))
  | action (effect operation : Literal) (parameters : List Literal)

/-- Parameters. If there is a `rest`, it takes all arguments before those of `names`. -/
structure Parameters where
  rest : Option String
  names : List String

mutual

inductive Expr where
  | literal (l : Literal)
  | var (name : String)
  | function (parameters : Parameters) (body : List Stmt)
  /-- A function that gives a computation with this name. -/
  | computation (name : String) (parameters : Parameters) (body : List Stmt)
  | apply (p : Primitive) (arguments : List Expr)

inductive Stmt where
  | assign (x : String) (e : Expr)
  | assignGlobal (x : String) (e : Expr)
  | emit (e : Expr)
  | eval (e : Expr)
  | give (e : Expr)
  | fail (e : Expr)
  | branch (condition : Expr) (yes no : List Stmt)
  | repeated (x : String) (count : Expr) (body : List Stmt)
  | guarded (body : List Stmt) (x : String) (handler : List Stmt)
  /-- Runs a computation to its end and suspends with everything it yields. -/
  | delegate (x : Option String) (e : Expr)
  /-- Suspends with a value. -/
  | yield (x : Option String) (e : Expr)

end

end OneShot.Script
