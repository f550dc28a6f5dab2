import LatexOrigins.Origin.Basic

/-!
# The order of origins

Origins are ordered as the flat source presents them: by the offset in the flat
source, then by the rank of the file, the offset in the file and the offset in
the plain text, where no offset comes before every offset. First the starts are
compared, then the ends. Origins that agree in these numbers count as equal.
-/

namespace LatexOrigins

structure Pointer.Key where
  source : Nat
  file : Nat
  offset : Nat
  text : Nat
  deriving DecidableEq, Repr

namespace Pointer

def key (p : Pointer) : Key :=
  ⟨p.source.offset, p.place.file, p.place.position.offset, p.text.elim 0 (·.offset + 1)⟩

/-- Order by offset in the source, file, offset in the file, offset in the text. -/
def compare (p q : Pointer) : Ordering :=
  (Ord.compare p.key.source q.key.source).then <|
    (Ord.compare p.key.file q.key.file).then <|
      (Ord.compare p.key.offset q.key.offset).then (Ord.compare p.key.text q.key.text)

instance : Ord Pointer := ⟨compare⟩

instance : BEq Pointer := ⟨fun p q => p.key = q.key⟩

end Pointer

namespace Origin

def compare (a b : Origin) : Ordering :=
  (a.start.compare b.start).then (a.stop.compare b.stop)

instance : Ord Origin := ⟨compare⟩

instance : BEq Origin := ⟨fun a b => a.start == b.start && a.stop == b.stop⟩

def le (a b : Origin) : Bool := (compare a b).isLE

end Origin

end LatexOrigins
