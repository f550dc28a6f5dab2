import LatexOrigins.Json.Basic

/-!
# Writing JSON

Two layouts: everything on one line without blanks, or one member per line with
two blanks of indentation per level. Inside strings the quote, the backslash
and the control characters are escaped, so a value in the compact layout never
holds a line break.
-/

namespace LatexOrigins.Json

def escapeControl (c : Char) : List Char :=
  ['\\', 'u', '0', '0', Nat.digitChar (c.toNat / 16), Nat.digitChar (c.toNat % 16)]

def escape (c : Char) : List Char :=
  if c = '"' then ['\\', '"']
  else if c = '\\' then ['\\', '\\']
  else if c = '\x08' then ['\\', 'b']
  else if c = '\x0c' then ['\\', 'f']
  else if c = '\n' then ['\\', 'n']
  else if c = '\r' then ['\\', 'r']
  else if c = '\t' then ['\\', 't']
  else if c.toNat < 0x20 then escapeControl c
  else [c]

def quote (s : String) : String := "\"" ++ String.ofList (s.toList.flatMap escape) ++ "\""

def decimalText (mantissa : Int) (places : Nat) : String :=
  toString mantissa ++ "e-" ++ toString places

mutual

def compact : Json → String
  | .null => "null"
  | .bool true => "true"
  | .bool false => "false"
  | .integer n => toString n
  | .decimal m p => decimalText m p
  | .string s => quote s
  | .array items => "[" ++ ",".intercalate (compactItems items) ++ "]"
  | .object members => "\x7b" ++ ",".intercalate (compactMembers members) ++ "\x7d"

def compactItems : List Json → List String
  | [] => []
  | item :: rest => compact item :: compactItems rest

def compactMembers : List (String × Json) → List String
  | [] => []
  | (key, value) :: rest => (quote key ++ ":" ++ compact value) :: compactMembers rest

end

def breakTo (level : Nat) : String := "\n" ++ "".pushn ' ' (2 * level)

mutual

def prettyAt (level : Nat) : Json → String
  | .array [] => "[]"
  | .array (item :: rest) =>
    "[" ++ ",".intercalate (prettyItems (level + 1) (item :: rest)) ++ breakTo level ++ "]"
  | .object [] => "\x7b\x7d"
  | .object (first :: rest) =>
    "\x7b" ++ ",".intercalate (prettyMembers (level + 1) (first :: rest)) ++ breakTo level ++ "\x7d"
  | .null => "null"
  | .bool true => "true"
  | .bool false => "false"
  | .integer n => toString n
  | .decimal m p => decimalText m p
  | .string s => quote s

def prettyItems (level : Nat) : List Json → List String
  | [] => []
  | item :: rest => (breakTo level ++ prettyAt level item) :: prettyItems level rest

def prettyMembers (level : Nat) : List (String × Json) → List String
  | [] => []
  | (key, value) :: rest =>
    (breakTo level ++ quote key ++ ": " ++ prettyAt level value) :: prettyMembers level rest

end

def pretty (value : Json) : String := prettyAt 0 value

end LatexOrigins.Json
