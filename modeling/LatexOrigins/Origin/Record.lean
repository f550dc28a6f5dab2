import LatexOrigins.Json.Basic
import LatexOrigins.Origin.Basic

/-!
# Origin records

A flat summary of an origin for reports: its file and, for both ends, line,
column and offset in the file, the offset in the source and, if there is one,
the offset in the plain text.
-/

namespace LatexOrigins

structure Pointer.Record where
  line : Nat
  column : Nat
  offset : Nat
  sourceOffset : Nat
  textOffset : Option Nat
  deriving DecidableEq, Repr

structure Origin.Record where
  file : String
  start : Pointer.Record
  stop : Pointer.Record
  deriving DecidableEq, Repr

def Pointer.record (p : Pointer) : Pointer.Record :=
  ⟨p.place.position.line, p.place.position.column, p.place.position.offset, p.source.offset,
    p.text.map (·.offset)⟩

def Origin.record (o : Origin) : Origin.Record := ⟨o.file, o.start.record, o.stop.record⟩

def Pointer.Record.toJson (r : Pointer.Record) : Json :=
  .object <|
    [("line", .nat r.line), ("column", .nat r.column), ("offset", .nat r.offset),
      ("source_offset", .nat r.sourceOffset)] ++
    r.textOffset.toList.map (fun n => ("text_offset", .nat n))

def Origin.Record.toJson (r : Origin.Record) : Json :=
  .object [("file", .string r.file), ("begin", r.start.toJson), ("end", r.stop.toJson)]

end LatexOrigins
