import LatexOrigins.Analysis.Problem
import LatexOrigins.Document.Basic
import LatexOrigins.Text.Matcher

/-!
# Checkers

A checker finds problems in a document. The checker of a pattern reports every
match that is not empty, in the plain text or in the flat source; matches whose
place cannot be told are passed over.
-/

namespace LatexOrigins

structure Checker where
  name : String
  check : Document → List Problem

inductive SearchTarget where
  | source
  | text
  deriving DecidableEq, Repr

def Document.find (d : Document) (m : Matcher) : SearchTarget → List (Except Origin.Error Origin)
  | .source => d.originsInSource (m.ranges d.flatText)
  | .text => d.originsInText (m.ranges d.text)

structure PatternRule where
  tool : String
  rule : String
  message : String
  pattern : Matcher
  target : SearchTarget

namespace PatternRule

def contextSize : Nat := 20

def matched (d : Document) (origin : Origin) : String :=
  let (start, stop) := origin.fileSpan
  ((d.source.content? origin.file).bind fun content => Text.slice? content start stop).getD ""

def problem (r : PatternRule) (d : Document) (origin : Origin) : Problem where
  origin := origin
  message := r.message
  context := (d.context? origin contextSize).getD ""
  longId := r.rule ++ ":" ++ matched d origin
  tool := r.tool
  rule := r.rule
  lookUpUrl := none

def toChecker (r : PatternRule) : Checker where
  name := r.tool
  check d := ((d.find r.pattern r.target).filterMap Except.toOption).map (r.problem d)

end PatternRule

end LatexOrigins
