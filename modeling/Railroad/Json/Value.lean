/-
# JSON values

A number is kept as a whole number if it is written without a point and without
an exponent, and as a double otherwise.  An object keeps its fields in the order
in which they are written; where a name occurs twice, the last field with that
name counts.
-/

namespace Railroad

/-- A JSON value. -/
inductive Json where
  | null
  | bool (value : Bool)
  | integer (value : Int)
  | real (value : Float)
  | string (text : String)
  | array (items : List Json)
  | object (fields : List (String × Json))

namespace Json

instance : Inhabited Json := ⟨.null⟩

/-- The value of the last field with the given name. -/
def lookup? (name : String) (fields : List (String × Json)) : Option Json :=
  (fields.reverse.find? fun field => field.1 == name).map Prod.snd

end Json
end Railroad
