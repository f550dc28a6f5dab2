import LatexOrigins.Document.Basic
import LatexOrigins.Flat.Options
import LatexOrigins.Plain.Options

/-!
# Settings
-/

namespace LatexOrigins

structure Settings where
  flatten : Flat.Options
  plain : Plain.Options
  spanLimit : Nat
  deriving DecidableEq, Repr

def Settings.standard : Settings := ⟨.standard, .standard, defaultSpanLimit⟩

end LatexOrigins
