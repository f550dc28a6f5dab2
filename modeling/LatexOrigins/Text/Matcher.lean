/-!
# Matchers

A matcher is a pattern that has been compiled. In a text it finds the ranges that match,
and the ranges that the matches capture under a name. Which patterns there are, and what
they match, is up to whatever compiles them.
-/

namespace LatexOrigins

structure Matcher where
  ranges (text : String) : List (Nat × Nat)
  captures (name text : String) : List (Nat × Nat)

end LatexOrigins
