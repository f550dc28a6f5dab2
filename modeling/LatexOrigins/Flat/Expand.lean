import LatexOrigins.Files.FileSet
import LatexOrigins.Flat.Basic
import LatexOrigins.Flat.Move

/-!
# Expanding a document

Expanding a file performs its moves one after the other on the flat source made
so far; an inclusion expands the named file in its place. The files that are
open at a time are kept in a list, the innermost first, and a file that is open
already is not entered again. The chain of open files cannot grow beyond the
depth of the file set, and that bounds the recursion.
-/

namespace LatexOrigins.Flat

def commandLine : String := "the command line"

def findFile (files : FileSet) (name : String) (includer : Option String) :
    Except LoadError String :=
  match files.resolve name includer with
  | some path => .ok path
  | none => .error (.fileNotFound name (includer.getD commandLine))

/-- Perform a move of the file `id` under `path`; `enter` expands another file. -/
def perform (files : FileSet) (enter : Flat → String → Except LoadError Flat)
    (path : String) (id : Nat) (content : String) (flat : Flat) : Move → Except LoadError Flat
  | .keep start stop => (flat.keep id content start stop).mapError .fault
  | .comment _ none => .ok flat
  | .comment _ (some indentation) => (flat.retract indentation).mapError .fault
  | .follow start stop =>
    match Text.slice? content start stop with
    | none => .error (.fault .brokenSlice)
    | some name => do enter flat (← findFile files name (some path))

/-- Expand a file at the end of a flat source. `opened` holds the paths of the
files that are being expanded, the innermost first. -/
def expandFile (files : FileSet) (options : Options) (limit : Nat) (opened : List String)
    (flat : Flat) (path : String) : Except LoadError Flat :=
  if opened.contains path then
    .error (.cyclicInclusion path (path :: opened).reverse)
  else do
    let content ← files.read path
    let (flat, id) := flat.enter path content
    match limit with
    | 0 => .error (.fault .nesting)
    | limit + 1 =>
      let enter := expandFile files options limit (path :: opened)
      (moves options content).foldlM (perform files enter path id content) flat

def expand (files : FileSet) (options : Options) (main : String) : Except LoadError Flat := do
  let path ← findFile files main none
  expandFile files options files.depth [] empty path

end LatexOrigins.Flat
