import LatexOrigins.Document.Basic
import LatexOrigins.Flat.Expand
import LatexOrigins.Plain.Block
import LatexOrigins.Settings.Basic

/-!
# Building a document

A document is built in two passes, each checked: the root file is flattened into
a source, and the markup of the flat text is stripped. Other passes can take the
place of the usual ones.
-/

namespace LatexOrigins

structure Pipeline where
  flatten : String → Except LoadError Flat
  strip : Plain.Stripper
  spanLimit : Nat

namespace Pipeline

def standard (files : FileSet) (settings : Settings) : Pipeline where
  flatten main := Flat.expand files settings.flatten main
  strip flat := (Plain.strip settings.plain flat).mapError .fault
  spanLimit := settings.spanLimit

def source (passes : Pipeline) (main : String) : Except LoadError Source := do
  Source.ofFlat (← passes.flatten main)

def document (passes : Pipeline) (main : String) : Except LoadError Document := do
  let source ← passes.source main
  let plain ← Plain.ofSource source.flat.text passes.strip
  let document ← Document.ofParts source plain
  pure (document.withSpanLimit passes.spanLimit)

end Pipeline

def Document.build (files : FileSet) (settings : Settings) (main : String) :
    Except LoadError Document :=
  (Pipeline.standard files settings).document main

end LatexOrigins
