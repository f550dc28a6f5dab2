/-!
# TOML values

What a TOML document holds. Keys are unique within a table. Numbers with a
fraction and dates keep their written form, since nothing reads more of them
than that they are there.
-/

namespace LatexOrigins.Toml

inductive Value where
  | string (text : String)
  | integer (value : Int)
  | float (text : String)
  | boolean (value : Bool)
  | datetime (text : String)
  | array (items : List Value)
  | table (entries : List (String × Value))
  deriving Repr, Inhabited

inductive Error where
  | unexpected
  | badString
  | badNumber
  | badKey
  | redefined
  | tooDeep
  deriving DecidableEq, Repr

end LatexOrigins.Toml
