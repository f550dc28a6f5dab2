import LatexOrigins.Origin.Error

/-!
# Origins

An origin is a non-empty range of one source file, together with the range of
the flat source it was traced from and, when it was asked for by a range of the
plain text, that range too. Its type carries what every reader relies on: both
ends lie in one file, and neither the file range nor the source range is empty.
-/

namespace LatexOrigins

structure FilePlace where
  path : String
  file : Nat
  position : Position
  deriving DecidableEq, Repr

/-- A place as `path[line:column]`. -/
def FilePlace.describe (p : FilePlace) : String :=
  s!"{p.path}[{p.position.line}:{p.position.column}]"

structure Pointer where
  place : FilePlace
  source : Position
  text : Option Position
  deriving DecidableEq, Repr

structure Origin where
  start : Pointer
  stop : Pointer
  same_path : start.place.path = stop.place.path
  place_lt : start.place.position.offset < stop.place.position.offset
  source_lt : start.source.offset < stop.source.offset
  deriving DecidableEq, Repr

namespace Origin

/-- Pair two pointers, if they lie in one file and enclose something there and
in the flat source. The file is looked at first, then the range in the file,
then the range in the source. -/
def ofPointers (start stop : Pointer) : Except Origin.Error Origin :=
  if hpath : start.place.path = stop.place.path then
    if hplace : start.place.position.offset < stop.place.position.offset then
      if hsource : start.source.offset < stop.source.offset then
        .ok ⟨start, stop, hpath, hplace, hsource⟩
      else
        .error (.emptyOrigin start.place.path start.source.offset stop.source.offset)
    else
      .error (.emptyOrigin start.place.path start.place.position.offset stop.place.position.offset)
  else
    .error (.fileMismatch start.place.path stop.place.path)

def withText (o : Origin) (start stop : Position) : Origin :=
  ⟨{ o.start with text := some start }, { o.stop with text := some stop },
    o.same_path, o.place_lt, o.source_lt⟩

def file (o : Origin) : String := o.start.place.path

def fileId (o : Origin) : Nat := o.start.place.file

def fileSpan (o : Origin) : Nat × Nat :=
  (o.start.place.position.offset, o.stop.place.position.offset)

def sourceSpan (o : Origin) : Nat × Nat := (o.start.source.offset, o.stop.source.offset)

def textSpan (o : Origin) : Option (Nat × Nat) :=
  match o.start.text, o.stop.text with
  | some b, some e => some (b.offset, e.offset)
  | _, _ => none

def fileLine (o : Origin) : Nat := o.start.place.position.line

def sourceLine (o : Origin) : Nat := o.start.source.line

def textLine (o : Origin) : Option Nat := o.start.text.map (·.line)

/-- An origin as `path[line:column-line:column]`. -/
def describe (o : Origin) : String :=
  let b := o.start.place.position
  let e := o.stop.place.position
  s!"{o.file}[{b.line}:{b.column}-{e.line}:{e.column}]"

end Origin

end LatexOrigins
