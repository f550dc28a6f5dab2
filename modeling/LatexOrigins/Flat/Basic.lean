import LatexOrigins.Fault
import LatexOrigins.Text.Bytes

/-!
# Flat sources

The flat source of a document is one text put together from pieces of files,
with a table that says for each of its bytes which byte of which file it is.
Bytes that come from no file have an empty entry. Files are numbered in the
order in which they are registered.
-/

namespace LatexOrigins

/-- A byte of a file: the number of the file and the offset in it. -/
structure Provenance where
  file : Nat
  offset : Nat
  deriving DecidableEq, Repr

structure FileCopy where
  path : String
  content : String
  deriving DecidableEq, Repr

structure Flat where
  text : String
  /-- The registered files; the number of a file is its index. -/
  files : Array FileCopy
  origins : Array (Option Provenance)
  deriving DecidableEq, Repr

namespace Flat

def empty : Flat := ⟨"", #[], #[]⟩

/-- Register a file. Its number is the count of files before it. -/
def addFile (flat : Flat) (path content : String) : Flat :=
  { flat with files := flat.files.push ⟨path, content⟩ }

def provenances (file start stop : Nat) : List (Option Provenance) :=
  (List.range' start (stop - start)).map fun offset => some ⟨file, offset⟩

/-- Append a range of the content of a file. An empty or reversed range appends
nothing. -/
def keep (flat : Flat) (file : Nat) (content : String) (start stop : Nat) :
    Except Fault Flat :=
  if start < stop then
    match Text.slice? content start stop with
    | some piece =>
      .ok { flat with
        text := flat.text ++ piece
        origins := flat.origins ++ provenances file start stop }
    | none => .error .brokenSlice
  else
    .ok flat

def insert (flat : Flat) (text : String) : Flat :=
  { flat with
    text := flat.text ++ text
    origins := flat.origins ++ List.replicate text.utf8ByteSize (none : Option Provenance) }

def retract (flat : Flat) (count : Nat) : Except Fault Flat :=
  if count ≤ flat.text.utf8ByteSize then
    let size := flat.text.utf8ByteSize - count
    match Text.slice? flat.text 0 size with
    | some text => .ok { flat with text := text, origins := flat.origins.take size }
    | none => .error .brokenSlice
  else
    .error .underflow

def provenance? (flat : Flat) (offset : Nat) : Option Provenance := (flat.origins[offset]?).join

def originOf? (flat : Flat) (offset : Nat) : Option (String × Nat) := do
  let origin ← flat.provenance? offset
  let file ← flat.files[origin.file]?
  pure (file.path, origin.offset)

def idOf? (flat : Flat) (path : String) : Option Nat := flat.files.findIdx? (·.path = path)

def enter (flat : Flat) (path content : String) : Flat × Nat :=
  match flat.idOf? path with
  | some id => (flat, id)
  | none => (flat.addFile path content, flat.files.size)

end Flat

end LatexOrigins
