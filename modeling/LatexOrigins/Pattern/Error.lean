/-!
# Why a text is not a pattern
-/

namespace LatexOrigins.Pattern

inductive Error where
  | unclosedGroup
  | unopenedGroup
  | badGroup
  | badName
  | badFlags
  | unclosedSet
  | badRange
  | badEscape
  | nothingToRepeat
  | badRepetition
  | notText
  | tooDeep
  | tooBig
  deriving DecidableEq, Repr

end LatexOrigins.Pattern
