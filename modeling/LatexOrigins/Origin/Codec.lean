import LatexOrigins.Json.Basic
import LatexOrigins.Origin.Basic

/-!
# Origins as JSON

The nested form keeps every field of an origin. Reading looks fields up by
name, passes over unknown ones, takes an absent or null text position for none,
and accepts a structure also as the array of its fields. What is read becomes
an origin only through `Origin.ofPointers`, so no origin that was read can be
empty or lie in two files.
-/

namespace LatexOrigins

namespace Position

def toJson (p : Position) : Json :=
  .object [("offset", .nat p.offset), ("line", .nat p.line), ("column", .nat p.column)]

def ofJson? (value : Json) : Option Position :=
  match value.fields? ["offset", "line", "column"] with
  | some [some offset, some line, some column] => do
    pure ⟨← offset.toNat?, ← line.toNat?, ← column.toNat?⟩
  | _ => none

end Position

namespace FilePlace

def toJson (p : FilePlace) : Json :=
  .object [("path", .string p.path), ("file_id", .nat p.file), ("position", p.position.toJson)]

def ofJson? (value : Json) : Option FilePlace :=
  match value.fields? ["path", "file_id", "position"] with
  | some [some path, some file, some position] => do
    pure ⟨← path.toString?, ← file.toNat?, ← Position.ofJson? position⟩
  | _ => none

end FilePlace

namespace Pointer

def toJson (p : Pointer) : Json :=
  .object [("file", p.place.toJson), ("source", p.source.toJson),
    ("text", p.text.elim .null Position.toJson)]

def ofJson? (value : Json) : Option Pointer :=
  match value.fields? ["file", "source", "text"] with
  | some [some place, some source, text] => do
    pure ⟨← FilePlace.ofJson? place, ← Position.ofJson? source,
      ← Json.optional? Position.ofJson? text⟩
  | _ => none

end Pointer

namespace Origin

def toJson (o : Origin) : Json := .object [("begin", o.start.toJson), ("end", o.stop.toJson)]

inductive ReadError where
  | malformed
  | invalid (cause : Origin.Error)
  deriving DecidableEq, Repr

def ofJson (value : Json) : Except ReadError Origin :=
  match value.fields? ["begin", "end"] with
  | some [some start, some stop] =>
    match Pointer.ofJson? start, Pointer.ofJson? stop with
    | some p, some q =>
      match ofPointers p q with
      | .ok o => .ok o
      | .error e => .error (.invalid e)
    | _, _ => .error .malformed
  | _ => .error .malformed

end Origin

end LatexOrigins
