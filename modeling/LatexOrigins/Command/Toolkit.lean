import LatexOrigins.Json.Basic
import LatexOrigins.Settings.Basic
import LatexOrigins.Text.Matcher

/-!
# Toolkits

A toolkit holds what commands need and leave to others: patterns are compiled, the text of
a settings file is read, and records are printed on one line or laid out.
-/

namespace LatexOrigins

structure Toolkit where
  compile? (pattern : String) : Option Matcher
  settings? (text : String) : Option Settings
  compact (record : Json) : String
  pretty (record : Json) : String

end LatexOrigins
