/-!
# Options for stripping markup
-/

namespace LatexOrigins

/-- What stands for markup in the plain text, and which environments do not
belong to the prose. -/
structure Plain.Options where
  mathPlaceholder : String
  referencePlaceholder : String
  citationPlaceholder : String
  skipEnvironments : List String
  mathEnvironments : List String
  deriving DecidableEq, Repr

def Plain.Options.standard : Plain.Options where
  mathPlaceholder := "X"
  referencePlaceholder := "0"
  citationPlaceholder := "[0]"
  skipEnvironments := ["verbatim", "lstlisting", "minted", "comment"]
  mathEnvironments :=
    ["equation", "equation*", "align", "align*", "gather", "gather*", "multline", "multline*",
      "eqnarray", "eqnarray*", "displaymath", "math"]

end LatexOrigins
