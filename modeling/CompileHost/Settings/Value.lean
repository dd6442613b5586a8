import CompileHost.Decimal.Shortest

/-!
# Values of settings

Settings come as values that were read from some text: nothing, truth values, numbers, texts,
lists, and objects with named fields, which stand in the order of their names.
-/

namespace CompileHost

inductive Value where
  | null
  | bool (b : Bool)
  | integer (n : Int)
  | float (x : Binary64)
  | text (s : String)
  | list (items : List Value)
  | object (fields : List (String × Value))

namespace Value

/-- The field of an object. -/
def field? : Value → String → Option Value
  | .object fields, name => (fields.find? (·.1 = name)).map (·.2)
  | _, _ => none

end Value

end CompileHost
