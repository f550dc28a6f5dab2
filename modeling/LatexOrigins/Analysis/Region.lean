import LatexOrigins.Analysis.Problem
import LatexOrigins.Document.Basic
import LatexOrigins.Text.Matcher

/-!
# Ignored regions

A region filter drops problems that lie inside a match of a pattern over the
flat source, or inside what such a match captures under a name. It collects its
regions from a document before it filters the problems of that document.
-/

namespace LatexOrigins

structure RegionFilter where
  pattern : Matcher
  /-- The capture that marks a region; without one it is the whole match. -/
  capture : Option String
  regions : List (Nat × Nat)

namespace RegionFilter

def ofMatcher (pattern : Matcher) (capture : Option String) : RegionFilter :=
  ⟨pattern, capture, []⟩

section Presets

variable (compile? : String → Option Matcher)

def ofText? (pattern : String) (capture : Option String) : Option RegionFilter :=
  (compile? pattern).map fun m => ofMatcher m capture

def pictures? : Option RegionFilter :=
  ofText? compile? ("\\\\includegraphics(\\[[^\\]]*\\])?" ++
    "\\\x7b(?P<path>[^\\\x7d]+)\\\x7d") (some "path")

def references? : Option RegionFilter :=
  ofText? compile? ("\\\\(([Cc]?ref)|(fullcite)|(f?ref((ch)|(sec))))" ++
    "\\\x7b(?P<ref>[^\\\x7d]+)\\\x7d") (some "ref")

end Presets

def regionsIn (f : RegionFilter) (flat : String) : List (Nat × Nat) :=
  match f.capture with
  | some name => f.pattern.captures name flat
  | none => f.pattern.ranges flat

def prepare (f : RegionFilter) (d : Document) : RegionFilter :=
  { f with regions := f.regionsIn d.flatText }

def covers (f : RegionFilter) (range : Nat × Nat) : Bool :=
  f.regions.any fun region => region.1 ≤ range.1 && range.2 ≤ region.2

def filter (f : RegionFilter) (problems : List Problem) : List Problem :=
  problems.filter fun p => !f.covers p.origin.sourceSpan

end RegionFilter

end LatexOrigins
