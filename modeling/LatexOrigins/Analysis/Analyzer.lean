import LatexOrigins.Analysis.Checker
import LatexOrigins.Analysis.Region
import LatexOrigins.Origin.Order

/-!
# Analyses

An analyzer lets all its checkers look at a document, in order, drops what its
filters ignore, and sorts the rest by origin; problems with equal origins stay
in the order in which they were found.
-/

namespace LatexOrigins

structure Analyzer where
  checkers : List Checker
  filters : List RegionFilter

namespace Analyzer

def found (a : Analyzer) (d : Document) : List Problem := a.checkers.flatMap fun c => c.check d

def prepare (a : Analyzer) (d : Document) : Analyzer :=
  { a with filters := a.filters.map fun f => f.prepare d }

/-- The problems of a document that no filter drops, by origin, and the analyzer
that is left to look at the next document. -/
def analyze (a : Analyzer) (d : Document) : List Problem × Analyzer :=
  let prepared := a.prepare d
  let kept := prepared.filters.foldl (fun problems f => f.filter problems) (a.found d)
  (kept.mergeSort fun p q => p.origin.le q.origin, prepared)

end Analyzer

end LatexOrigins
