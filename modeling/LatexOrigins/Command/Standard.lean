import LatexOrigins.Command.Toolkit
import LatexOrigins.Json.Printer
import LatexOrigins.Pattern.Basic
import LatexOrigins.Settings.Reading

/-!
# The toolkit of the program

Its patterns have no classes that are given by a property of characters (`\p`). What is proved
of commands is proved of every toolkit.
-/

namespace LatexOrigins

def Toolkit.standard : Toolkit where
  compile? := Pattern.compile?
  settings? := Settings.ofToml?
  compact := Json.compact
  pretty := Json.pretty

end LatexOrigins
