import LatexOrigins.Document.Source
import LatexOrigins.Plain.Basic

/-!
# Documents

A document is a source together with the plain text made from it. It answers the
question that checkers have: which range of which file does a range of the flat
source, or of the plain text, come from? A long range keeps only its last bytes,
so that the answer stays near its end.
-/

namespace LatexOrigins

def defaultSpanLimit : Nat := 1000

structure Document where
  source : Source
  plain : Plain
  spanLimit : Nat
  spanLimit_pos : 0 < spanLimit
  fits : ∀ entry ∈ plain.map, entry < source.flat.size

theorem le_of_getLast?_eq_some {l : List Nat} {entry last : Nat} (hmono : l.Pairwise (· ≤ ·))
    (hentry : entry ∈ l) (hlast : l.getLast? = some last) : entry ≤ last := by
  induction l with
  | nil => simp at hentry
  | cons x rest ih =>
    obtain ⟨hx, hrest⟩ := List.pairwise_cons.1 hmono
    cases rest with
    | nil => simp_all
    | cons y rest =>
      rw [List.getLast?_cons_cons] at hlast
      rcases List.mem_cons.1 hentry with rfl | hin
      · exact hx last (List.mem_of_getLast? hlast)
      · exact ih hrest hin hlast

namespace Document

/-- Whether a plain text stems from bytes of a flat source of some size. The map
never decreases, so its last entry decides. -/
def reachesPast (map : Array Nat) (size : Nat) : Option Nat :=
  map.back?.filter (size ≤ ·)

theorem lt_of_reachesPast {map : Array Nat} {size : Nat} (hmono : map.toList.Pairwise (· ≤ ·))
    (h : reachesPast map size = none) : ∀ entry ∈ map, entry < size := by
  intro entry hentry
  have hmem : entry ∈ map.toList := Array.mem_toList_iff.2 hentry
  have hlast := List.getLast?_eq_some_getLast (List.ne_nil_of_mem hmem)
  generalize map.toList.getLast _ = last at hlast
  have hle := le_of_getLast?_eq_some hmono hmem hlast
  have hback : map.back? = some last := by rw [← hlast, Array.getLast?_toList]
  simp [reachesPast, hback, Option.filter] at h
  omega

def ofParts (source : Source) (plain : Plain) : Except LoadError Document :=
  match h : reachesPast plain.map source.flat.size with
  | some target => .error (.mapOutOfBounds (plain.map.size - 1) target source.flat.size)
  | none =>
    .ok ⟨source, plain, defaultSpanLimit, by decide, lt_of_reachesPast plain.monotone h⟩

/-- The same document with another limit for ranges, which is at least one byte. -/
def withSpanLimit (d : Document) (limit : Nat) : Document :=
  { d with spanLimit := max limit 1, spanLimit_pos := by omega }

/-! ## Ranges -/

def locate (text : LinedText) (address : Address) (overflow : Overflow := .stops) :
    Except Origin.Error Position := do
  match ← (text.check? overflow address).mapError .fault with
  | some position => pure position
  | none =>
    match address with
    | .offset offset => throw (.outOfBounds offset text.size)
    | .lineColumn _ _ => throw (.badAddress address)

def locateRange (text : LinedText) (start stop : Address) (overflow : Overflow := .stops) :
    Except Origin.Error (Position × Position) := do
  let first ← locate text start overflow
  let last ← locate text stop overflow
  if first.offset < last.offset then pure (first, last)
  else throw (.emptyRange first.offset last.offset)

/-- Where the last of the bytes between `start` and `start + 1 + count` ends that
comes from a file; the byte at `start` ends them in any case. -/
def pullBack (source : Source) (file start : Nat) : Nat → Nat
  | 0 => start + 1
  | count + 1 =>
    if (source.provenance? (start + 1 + count)).map (·.file) = some file then
      start + 1 + count + 1
    else
      pullBack source file start count

/-- The origin of a range of the flat text. Of a long range the last bytes count;
the end is pulled back to the last of them that comes from the file that stands
for the range. -/
def originOfRange (d : Document) (start stop : Nat) : Except Origin.Error Origin := do
  if stop < start then throw (.fault .underflow)
  let start := if d.spanLimit < stop - start then stop - d.spanLimit else start
  match ← d.source.fileSpan start stop with
  | none => throw (.noOrigin start stop)
  | some (first, last) =>
    let sourceStop := pullBack d.source first.file start (stop - start - 1)
    let flat := d.source.flat
    let sourceFirst ← (flat.positionAt start).mapError .fault
    let sourceLast ← (flat.positionAt sourceStop).mapError .fault
    Origin.ofPointers ⟨first, sourceFirst, none⟩ ⟨last, sourceLast, none⟩

def originOfSource (d : Document) (start stop : Address) (overflow : Overflow := .stops) :
    Except Origin.Error Origin := do
  let (first, last) ← locateRange d.source.flat start stop overflow
  d.originOfRange first.offset last.offset

def originOfText (d : Document) (start stop : Address) (overflow : Overflow := .stops) :
    Except Origin.Error Origin := do
  let text := d.plain.lined
  let (first, last) ← locateRange text start stop overflow
  match d.plain.sourceOffset? first.offset with
  | none => throw (.outOfBounds first.offset text.size)
  | some sourceStart =>
    match d.plain.sourceEnd? last.offset with
    | none => throw (.outOfBounds last.offset text.size)
    | some sourceStop =>
      let origin ← d.originOfRange sourceStart sourceStop
      pure (origin.withText first last)

def originsInSource (d : Document) (ranges : List (Nat × Nat)) :
    List (Except Origin.Error Origin) :=
  (ranges.filter fun range => range.1 ≠ range.2).map fun range =>
    d.originOfSource (.offset range.1) (.offset range.2)

def originsInText (d : Document) (ranges : List (Nat × Nat)) :
    List (Except Origin.Error Origin) :=
  (ranges.filter fun range => range.1 ≠ range.2).map fun range =>
    d.originOfText (.offset range.1) (.offset range.2)

/-! ## Context -/

def boundaryBefore (text : String) : Nat → Nat
  | 0 => 0
  | n + 1 => if Text.isBoundary text (n + 1) then n + 1 else boundaryBefore text n

/-- The first offset from some offset on, among so many, that lies between
characters; the last of them if none does. -/
def boundaryAfter (text : String) (offset : Nat) : Nat → Nat
  | 0 => offset
  | count + 1 =>
    if Text.isBoundary text offset then offset else boundaryAfter text (offset + 1) count

/-- The content of the file around an origin: its range, up to `count` more bytes
on either side, and what is needed to split no character. -/
def context? (d : Document) (origin : Origin) (count : Nat) : Option String :=
  match d.source.content? origin.file with
  | none => none
  | some content =>
    let (start, stop) := origin.fileSpan
    let size := content.utf8ByteSize
    if size < stop then none
    else
      let last := min (stop + count) size
      Text.slice? content (boundaryBefore content (start - count))
        (boundaryAfter content last (size - last))

/-! ## Records -/

def files (d : Document) : List String := d.source.files.toList.map (·.path)

def flatText (d : Document) : String := d.source.flat.text

def text (d : Document) : String := d.plain.text

end Document

end LatexOrigins
