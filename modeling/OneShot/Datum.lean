/-!
# Data

A value as it was at one moment, with all its contents. Nothing changes it afterwards.
-/

namespace OneShot

inductive Datum where
  | nil
  | bool (b : Bool)
  | int (n : Int)
  | str (s : String)
  | tuple (items : List Datum)
  | list (items : List Datum)
  | dict (entries : List (Datum × Datum))
  | frozen (entries : List (Datum × Datum))
  /-- An error with its kind and, if it has one, its text. -/
  | error (kind : String) (text : Option String)
  | action (effect operation : Datum) (parameters : List Datum)
  | suspended (action : Datum)
  | completed (result : Datum)
  | resume (value : Datum)
  | abort (value : Datum)
  | report (value error : Datum)
  | creator (effect operation : Datum)
  | effect (name : String) (operations : List Datum) (isOpen : Bool)
  | tactics (action : String) (outcome : Datum)
  | spec (name : String)
  /-- Anything else shows only the name of its type. -/
  | other (typeName : String)

instance : Inhabited Datum := ⟨.nil⟩

end OneShot
