/-!
# Positions of a text

A position is a byte offset together with the line it lies on and its byte
distance from the start of that line; all three count from zero. An address
names a position either by its offset or by line and column.
-/

namespace LatexOrigins

structure Position where
  offset : Nat
  line : Nat
  column : Nat
  deriving DecidableEq, Repr, Inhabited

namespace Position

/-- One byte further on the same line. It turns an inclusive last position into
an exclusive end, so after a line break it still counts on the line that the
break ends. -/
def next (p : Position) : Position := ⟨p.offset + 1, p.line, p.column + 1⟩

def compare (p q : Position) : Ordering :=
  (Ord.compare p.offset q.offset).then
    ((Ord.compare p.line q.line).then (Ord.compare p.column q.column))

instance : Ord Position := ⟨compare⟩

def min (p q : Position) : Position := if (compare q p).isLT then q else p

def max (p q : Position) : Position := if (compare p q).isLT then q else p

end Position

inductive Address where
  | offset (offset : Nat)
  | lineColumn (line column : Nat)
  deriving DecidableEq, Repr

namespace Address

def describe : Address → String
  | .offset n => s!"Offset({n})"
  | .lineColumn l c =>
    "LineColumn \x7b line: " ++ toString l ++ ", column: " ++ toString c ++ " \x7d"

end Address

end LatexOrigins
