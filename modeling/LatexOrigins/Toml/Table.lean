import LatexOrigins.Toml.Basic

/-!
# Tables in the making

A TOML document builds its tables bit by bit: by headers, by dotted keys and by
lists of tables. What may still be added to a table depends on how it came
about. A table that a header defined takes no second header and no dotted key
from outside; one that dotted keys made takes no header; and only a table that
lies on the way to another header can be defined later.
-/

namespace LatexOrigins.Toml

inductive Style where
  | header
  | implied
  | dotted
  deriving DecidableEq, Repr

inductive Node where
  | leaf (value : Value)
  | table (style : Style) (entries : List (String × Node))
  | rows (done : List (List (String × Node))) (last : List (String × Node))
  deriving Repr, Inhabited

abbrev Entries := List (String × Node)

def alter (key : String) (f : Option Node → Except Error Node) :
    Entries → Except Error Entries
  | [] => do pure [(key, ← f none)]
  | (k, node) :: rest =>
    if k = key then do pure ((k, ← f (some node)) :: rest)
    else do pure ((k, node) :: (← alter key f rest))

/-- Follow keys to a table and change it; `f` learns how that table came about.
Tables that are missing on the way are made. Dotted keys do not lead into a table
with a header of its own, except through a list of tables. -/
def descend (dotted : Bool) (f : Style → Entries → Except Error Entries) :
    List String → Style → Entries → Except Error Entries
  | [], style, entries => f style entries
  | key :: path, _, entries =>
    let made := if dotted then Style.dotted else .implied
    alter key (fun
      | none => do pure (.table made (← descend dotted f path made []))
      | some (.leaf _) => throw .redefined
      | some (.rows done last) => do pure (.rows done (← descend dotted f path .header last))
      | some (.table style inner) =>
        if dotted ∧ style = .header then throw .redefined
        else do pure (.table style (← descend dotted f path style inner))) entries

def splitLast : List String → Option (List String × String)
  | [] => none
  | [key] => some ([], key)
  | key :: rest => (splitLast rest).map fun (before, last) => (key :: before, last)

def defineTable (path : List String) (root : Entries) : Except Error Entries :=
  match splitLast path with
  | none => .error .badKey
  | some (before, key) =>
    descend false (fun _ => alter key fun
      | none => pure (.table .header [])
      | some (.table .implied entries) => pure (.table .header entries)
      | some _ => throw .redefined) before .header root

def defineRow (path : List String) (root : Entries) : Except Error Entries :=
  match splitLast path with
  | none => .error .badKey
  | some (before, key) =>
    descend false (fun _ => alter key fun
      | none => pure (.rows [] [])
      | some (.rows done last) => pure (.rows (done ++ [last]) [])
      | some _ => throw .redefined) before .header root

def define (path : List String) (value : Value) (style : Style) (entries : Entries) :
    Except Error Entries :=
  match splitLast path with
  | none => .error .badKey
  | some (before, key) =>
    descend true (fun style entries =>
      if (style = .dotted) = (before = []) then throw .redefined
      else
        alter key (fun
          | none => pure (.leaf value)
          | some _ => throw .redefined) entries) before style entries

def defineIn (header path : List String) (value : Value) (root : Entries) :
    Except Error Entries :=
  descend false (define path value) header .header root

mutual

def Node.toValue : Node → Value
  | .leaf value => value
  | .table _ entries => .table (entryValues entries)
  | .rows done last => .array (rowValues done ++ [.table (entryValues last)])

def entryValues : List (String × Node) → List (String × Value)
  | [] => []
  | (key, node) :: rest => (key, node.toValue) :: entryValues rest

def rowValues : List (List (String × Node)) → List Value
  | [] => []
  | row :: rest => .table (entryValues row) :: rowValues rest

end

end LatexOrigins.Toml
