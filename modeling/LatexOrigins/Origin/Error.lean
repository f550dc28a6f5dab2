import LatexOrigins.Fault

/-!
# Why a range has no origin
-/

namespace LatexOrigins

inductive Origin.Error where
  | emptyRange (start stop : Nat)
  | outOfBounds (offset size : Nat)
  | badAddress (address : Address)
  | noOrigin (start stop : Nat)
  | incoherent (start stop : Nat)
  | fileMismatch (start stop : String)
  | emptyOrigin (file : String) (start stop : Nat)
  | fault (cause : Fault)
  deriving DecidableEq, Repr

namespace Origin.Error

/-- The words for an error; a fault may have none. -/
def message? : Origin.Error → Option String
  | .emptyRange start stop => some s!"invalid range {start}..{stop}: begin must be before end"
  | .outOfBounds offset size =>
    some s!"offset {offset} is out of bounds for a text of length {size}"
  | .badAddress address => some ("position " ++ address.describe ++ " does not exist in the text")
  | .noOrigin start stop => some s!"no origin for range {start}..{stop}"
  | .incoherent start stop =>
    some s!"could not determine a coherent origin for range {start}..{stop}"
  | .fileMismatch start stop => some s!"begin and end must be in the same file: {start} != {stop}"
  | .emptyOrigin file start stop => some s!"origin in {file} would be empty: {start} >= {stop}"
  | .fault cause => cause.message?

def isNoOrigin : Origin.Error → Bool
  | .noOrigin _ _ => true
  | _ => false

end Origin.Error

end LatexOrigins
