/-!
# Options for flattening
-/

namespace LatexOrigins

/-- A command that is unwrapped while flattening: it goes with its optional star,
its options and its braced arguments, and one of these may stay in its place. -/
structure CommandRule where
  name : String
  arguments : Nat
  keep : Option Nat
  deriving DecidableEq, Repr

def CommandRule.dropped (name : String) (arguments : Nat) : CommandRule := ⟨name, arguments, none⟩

def CommandRule.keeping (name : String) (arguments keep : Nat) : CommandRule :=
  ⟨name, arguments, some keep⟩

structure Flat.Options where
  includeCommands : List String
  pauseMarker : String
  continueMarker : String
  /-- Unwrapped commands. The first rule for a name counts. -/
  commandRules : List CommandRule
  deriving DecidableEq, Repr

/-- The usual inclusion commands, and the markup for tracked changes and notes. -/
def Flat.Options.standard : Flat.Options where
  includeCommands := ["input", "include", "subfile"]
  pauseMarker := "%%PAUSE-CHECKING"
  continueMarker := "%%CONTINUE-CHECKING"
  commandRules :=
    [.keeping "added" 1 1, .dropped "deleted" 1, .keeping "replaced" 2 1,
      .dropped "todo" 1, .dropped "missingfigure" 1, .dropped "listoftodos" 0]

end LatexOrigins
