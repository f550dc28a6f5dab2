/-!
# JSON values

The values that records are written as and that origins and settings are read
from. Members keep the order in which they are written.
-/

namespace LatexOrigins

inductive Json where
  | null
  | bool (value : Bool)
  | integer (value : Int)
  | decimal (mantissa : Int) (places : Nat)
  | string (value : String)
  | array (items : List Json)
  | object (members : List (String × Json))
  deriving Repr, Inhabited

namespace Json

def member? (members : List (String × Json)) (key : String) : Option Json :=
  (members.find? (·.1 = key)).map (·.2)

def nat (n : Nat) : Json := .integer n

def natLimit : Nat := UInt64.size

def toNat? : Json → Option Nat
  | .integer (.ofNat n) => if n < natLimit then some n else none
  | _ => none

def toString? : Json → Option String
  | .string s => some s
  | _ => none

def optional? {α : Type} (read : Json → Option α) : Option Json → Option (Option α)
  | none => some none
  | some .null => some none
  | some value => (read value).map some

def items? {α : Type} (read : Json → Option α) : Json → Option (List α)
  | .array items => items.mapM read
  | _ => none

/-- The fields of a structure, which is written as an object or as an array of
exactly its fields in order. -/
def fields? (names : List String) : Json → Option (List (Option Json))
  | .object members => some (names.map (member? members))
  | .array items =>
    if items.length = names.length then some (items.map some) else none
  | _ => none

end Json

end LatexOrigins
