import LatexOrigins.Document.Basic
import LatexOrigins.Json.Basic

/-!
# Document records

What a report shows of a document: the flat text, the content of every file as it
was read, and the plain text. A record can be written as JSON and read back.
-/

namespace LatexOrigins

structure Source.Record where
  flat : String
  files : List FileCopy
  deriving DecidableEq, Repr

structure Document.Record where
  sources : Source.Record
  text : String
  deriving DecidableEq, Repr

def Source.record (s : Source) : Source.Record :=
  ⟨s.flat.text, s.files.toList.map fun file => ⟨file.path, file.lined.text⟩⟩

def Document.record (d : Document) : Document.Record := ⟨d.source.record, d.text⟩

/-! ## Written form -/

def FileCopy.toJson (f : FileCopy) : Json :=
  .object [("path", .string f.path), ("content", .string f.content)]

def FileCopy.ofJson? (value : Json) : Option FileCopy :=
  match value.fields? ["path", "content"] with
  | some [some path, some content] => do pure ⟨← path.toString?, ← content.toString?⟩
  | _ => none

def Source.Record.toJson (r : Source.Record) : Json :=
  .object [("flat", .string r.flat), ("files", .array (r.files.map FileCopy.toJson))]

def Source.Record.ofJson? (value : Json) : Option Source.Record :=
  match value.fields? ["flat", "files"] with
  | some [some flat, some files] => do
    pure ⟨← flat.toString?, ← files.items? FileCopy.ofJson?⟩
  | _ => none

def Document.Record.toJson (r : Document.Record) : Json :=
  .object [("sources", r.sources.toJson), ("text", .string r.text)]

def Document.Record.ofJson? (value : Json) : Option Document.Record :=
  match value.fields? ["sources", "text"] with
  | some [some sources, some text] => do
    pure ⟨← Source.Record.ofJson? sources, ← text.toString?⟩
  | _ => none

theorem FileCopy.ofJson?_toJson (f : FileCopy) : FileCopy.ofJson? f.toJson = some f := rfl

theorem Source.Record.ofJson?_toJson (r : Source.Record) :
    Source.Record.ofJson? r.toJson = some r := by
  obtain ⟨flat, files⟩ := r
  have hfiles : (files.map FileCopy.toJson).mapM FileCopy.ofJson? = some files := by
    induction files with
    | nil => rfl
    | cons f rest ih => simp [List.mapM_cons, FileCopy.ofJson?_toJson, ih]
  simp [toJson, ofJson?, Json.fields?, Json.member?, Json.items?, Json.toString?, hfiles]

theorem Document.Record.ofJson?_toJson (r : Document.Record) :
    Document.Record.ofJson? r.toJson = some r := by
  obtain ⟨sources, text⟩ := r
  simp [toJson, ofJson?, Json.fields?, Json.member?, Json.toString?,
    Source.Record.ofJson?_toJson]

end LatexOrigins
