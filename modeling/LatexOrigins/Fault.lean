import LatexOrigins.Text.Position

/-!
# Faults

A fault is a broken promise of a caller: an address outside a text, a cut
through a character, a number that no word holds. Operations that could meet one report it as a value, so
that its absence can be stated and proved.
-/

namespace LatexOrigins

inductive Fault where
  | offsetPastEnd (offset size : Nat)
  | noSuchLine (line count : Nat)
  | columnPastEnd (line column : Nat)
  | unaddressable (address : Address)
  | brokenSlice
  | underflow
  | overflow
  | nesting
  deriving DecidableEq, Repr

namespace Fault

/-- The words for a fault; cuts and counts that go wrong have none. -/
def message? : Fault → Option String
  | .offsetPastEnd offset size => some s!"offset {offset} out of bounds for text of length {size}"
  | .noSuchLine line count => some s!"line {line} out of bounds ({count} lines)"
  | .columnPastEnd line column => some s!"line {line} column {column} lies past the end of the text"
  | .unaddressable address => some (address.describe ++ " is out of range for this text")
  | .brokenSlice => none
  | .underflow => none
  | .overflow => none
  | .nesting => none

end Fault

end LatexOrigins
