import LatexOrigins.Fault

/-!
# Why a document cannot be built

Building a document can fail while its files are looked up and read, while its
tables are checked, and while its settings are read. Once a document exists,
queries fail only with an `Origin.Error`.
-/

namespace LatexOrigins

inductive LoadError where
  | fileNotFound (name includer : String)
  | cyclicInclusion (path : String) (chain : List String)
  | unreadable (path : String)
  | mapLength (mapSize textSize : Nat)
  | mapDecreases (offset : Nat)
  | mapOutOfBounds (offset target sourceSize : Nat)
  | tableLength (tableSize textSize : Nat)
  | strayOrigin (flatOffset : Nat)
  | unreadableSettings (path : String)
  | badSettings
  | fault (cause : Fault)
  deriving DecidableEq, Repr

namespace LoadError

/-- The words for an error; a fault may have none. -/
def message? : LoadError → Option String
  | .fileNotFound name includer => some s!"could not find file '{name}' included from {includer}"
  | .cyclicInclusion path chain =>
    some ("cyclic inclusion of " ++ path ++ ": " ++ " -> ".intercalate chain)
  | .unreadable path => some s!"failed to read {path}"
  | .mapLength mapSize textSize =>
    some s!"char map has {mapSize} entries but the plain text has {textSize} bytes"
  | .mapDecreases offset => some s!"char map decreases at plain offset {offset}"
  | .mapOutOfBounds offset target sourceSize =>
    some (s!"char map entry {target} at plain offset {offset} exceeds " ++
      s!"flat source length {sourceSize}")
  | .tableLength tableSize textSize =>
    some s!"origin table has {tableSize} entries but the flat source has {textSize} bytes"
  | .strayOrigin flatOffset =>
    some s!"flat offset {flatOffset} has an origin outside the known files"
  | .unreadableSettings path => some s!"failed to read configuration {path}"
  | .badSettings => some "invalid configuration"
  | .fault cause => cause.message?

end LoadError

end LatexOrigins
