import LatexOrigins.Pattern.Footprint
import LatexOrigins.Pattern.Reader
import LatexOrigins.Pattern.Search
import LatexOrigins.Text.Matcher

/-!
# Patterns

A pattern is a regular expression over the characters of a text. Of all matches
the leftmost counts, and of those that start together the one that the order of
the alternatives and the greed of the repetitions prefer. The next match is
searched for behind it, so matches never overlap; an empty match directly behind
another match is passed over.
-/

namespace LatexOrigins

structure Pattern where
  program : Pattern.Program
  names : List (Option String)

namespace Pattern

def ofText (text : String) : Except Error Pattern := do
  let (e, names) ← Expr.ofText text
  unless e.fits do throw .tooBig
  pure ⟨.ofExpr e names.length, names⟩

def index? (p : Pattern) (name : String) : Option Nat :=
  (p.names.findIdx? (· = some name)).map (· + 1)

def slots (p : Pattern) (text : String) : List Slots :=
  p.program.searchAll none (.start text) (text.length + 1)

def ranges (p : Pattern) (text : String) : List (Nat × Nat) :=
  (p.slots text).filterMap fun s => Program.range? s 0

def captures (p : Pattern) (name text : String) : List (Nat × Nat) :=
  match p.index? name with
  | some index => (p.slots text).filterMap fun s => Program.range? s index
  | none => []

def matcher (p : Pattern) : Matcher := ⟨p.ranges, p.captures⟩

def compile? (text : String) : Option Matcher := (ofText text).toOption.map matcher

end Pattern

end LatexOrigins
