import LatexOrigins.Flat.Basic
import LatexOrigins.LoadError
import LatexOrigins.Origin.Basic
import LatexOrigins.Text.Lined
import LatexOrigins.Text.LineSpan

/-!
# The source of a document

A source is a finished flat source: its text and its files have line tables, and
its origin table has been checked. Each byte of the text has an entry, and each
entry that is not empty names an existing byte of a registered file. A range of
the flat text is traced back to one file, the one that was entered last among
those it touches, and there to one line.
-/

namespace LatexOrigins

structure SourceFile where
  path : String
  lined : LinedText

def SourceFile.holds (files : Array SourceFile) (origin : Provenance) : Bool :=
  match files[origin.file]? with
  | some file => origin.offset < file.lined.size
  | none => false

structure Source where
  flat : LinedText
  /-- The files; the number of a file is its index. -/
  files : Array SourceFile
  origins : Array (Option Provenance)
  size_origins : origins.size = flat.size
  holds : ∀ origin, some origin ∈ origins → SourceFile.holds files origin = true

namespace Source

def stray? (files : Array SourceFile) (origins : Array (Option Provenance)) : Option Nat :=
  origins.findIdx? fun entry => entry.any fun origin => !SourceFile.holds files origin

theorem holds_of_stray? {files : Array SourceFile} {origins : Array (Option Provenance)}
    (h : stray? files origins = none) :
    ∀ origin, some origin ∈ origins → SourceFile.holds files origin = true := by
  intro origin hmem
  have := Array.findIdx?_eq_none_iff.1 h _ hmem
  simpa using this

def ofFlat (flat : Flat) : Except LoadError Source :=
  let text := LinedText.ofString flat.text
  let files := flat.files.map fun file => ⟨file.path, LinedText.ofString file.content⟩
  if hsize : flat.origins.size = text.size then
    match hstray : stray? files flat.origins with
    | some offset => .error (.strayOrigin offset)
    | none => .ok ⟨text, files, flat.origins, hsize, holds_of_stray? hstray⟩
  else
    .error (.tableLength flat.origins.size text.size)

/-! ## Files -/

def file? (s : Source) (id : Nat) : Option SourceFile := s.files[id]?

def idOf? (s : Source) (path : String) : Option Nat := s.files.findIdx? (·.path = path)

def fileAt? (s : Source) (path : String) : Option SourceFile := s.files.find? (·.path = path)

def content? (s : Source) (path : String) : Option String :=
  (s.fileAt? path).map (·.lined.text)

def fileLine? (s : Source) (path : String) (line : Nat) : Except Fault (Option String) :=
  match s.fileAt? path with
  | some file => file.lined.line? line
  | none => .ok none

/-! ## Bytes -/

def provenance? (s : Source) (offset : Nat) : Option Provenance := (s.origins[offset]?).join

def originCount (s : Source) : Nat := s.origins.countP (·.isSome)

def place? (s : Source) (offset : Nat) : Except Fault (Option FilePlace) :=
  match s.provenance? offset with
  | none => .ok none
  | some origin =>
    match s.file? origin.file with
    | none => .ok none
    | some file => do
      let position ← file.lined.positionAt origin.offset
      pure (some ⟨file.path, origin.file, position⟩)

/-! ## Ranges -/

/-- What the bytes of a range come from, without the bytes that come from no
file. -/
def provenances (s : Source) (start stop : Nat) : List Provenance :=
  (List.range' start (stop - start)).filterMap s.provenance?

def share (bytes : List Provenance) (file : Nat) : Nat := bytes.countP (·.file = file)

/-- The file that stands for some bytes: the last one entered, unless it has only
one of them and the next one has more. -/
def reportedFile (bytes : List Provenance) : Option Nat :=
  match (bytes.map (·.file)).max? with
  | none => none
  | some deepest =>
    let others := bytes.filter (·.file ≠ deepest)
    match (others.map (·.file)).max? with
    | none => some deepest
    | some second =>
      if share bytes deepest = 1 ∧ 1 < share bytes second then some second else some deepest

/-- The range of one file, and on one line of it, that stands for a range of the
flat text. There is none if no byte of the range comes from a file. -/
def fileSpan (s : Source) (start stop : Nat) :
    Except Origin.Error (Option (FilePlace × FilePlace)) :=
  if stop ≤ start then .error (.emptyRange start stop)
  else if s.flat.size < stop then .error (.outOfBounds stop s.flat.size)
  else
    let bytes := s.provenances start stop
    match reportedFile bytes with
    | none => .ok none
    | some id =>
      match s.file? id with
      | none => .error (.incoherent start stop)
      | some file => do
        let offsets := (bytes.filter (·.file = id)).map (·.offset)
        let positions ← (offsets.mapM file.lined.positionAt).mapError .fault
        match lineSpan positions with
        | none => .error (.incoherent start stop)
        | some (first, last) =>
          .ok (some (⟨file.path, id, first⟩, ⟨file.path, id, last⟩))

end Source

end LatexOrigins
