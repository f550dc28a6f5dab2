/-!
# Sets of characters

A set of characters is held as the ranges of its code points. They stand in order
with gaps between them, so equal sets have equal ranges, and a character is looked
up by bisection. Surrogates are not characters, so no range holds one.
-/

namespace LatexOrigins.Pattern

/-- Ranges of code points, first and last, in order and with gaps between them. -/
structure CharSet where
  ranges : Array (Nat × Nat)
  deriving DecidableEq, Repr

namespace CharSet

def empty : CharSet := ⟨#[]⟩

def isEmpty (a : CharSet) : Bool := a.ranges.isEmpty

/-- Whether a code point lies in one of the ranges with an index between two bounds. -/
def holdsBetween (a : CharSet) (n low high : Nat) : Bool :=
  if h : low < high then
    let middle := (low + high) / 2
    let range := a.ranges.getD middle (0, 0)
    if n < range.1 then holdsBetween a n low middle
    else if range.2 < n then holdsBetween a n (middle + 1) high
    else true
  else
    false
termination_by high - low
decreasing_by all_goals omega

def holds (a : CharSet) (n : Nat) : Bool := a.holdsBetween n 0 a.ranges.size

def contains (a : CharSet) (c : Char) : Bool := a.holds c.toNat

/-- Put a range behind ranges that do not start behind it. Where it touches the
last of them, that one grows instead. -/
def addRange (ranges : Array (Nat × Nat)) (range : Nat × Nat) : Array (Nat × Nat) :=
  match ranges.back? with
  | some last =>
    if range.1 ≤ last.2 + 1 then ranges.pop.push (last.1, max last.2 range.2)
    else ranges.push range
  | none => #[range]

def ofOrdered (ranges : List (Nat × Nat)) : CharSet := ⟨ranges.foldl addRange #[]⟩

def ofRanges (ranges : List (Nat × Nat)) : CharSet :=
  ofOrdered (ranges.mergeSort fun a b => a.1 ≤ b.1)

def ofChars (chars : List Char) : CharSet := ofRanges (chars.map fun c => (c.toNat, c.toNat))

/-- The characters from one code point up to another one, which is excluded. -/
def between (low high : Nat) : List (Nat × Nat) :=
  [(low, min high 0xd800), (max low 0xe000, min high 0x110000)].filterMap fun bounds =>
    if bounds.1 < bounds.2 then some (bounds.1, bounds.2 - 1) else none

def range (first last : Char) : CharSet := ⟨(between first.toNat (last.toNat + 1)).toArray⟩

def single (c : Char) : CharSet := ⟨#[(c.toNat, c.toNat)]⟩

def single? (a : CharSet) : Option Char :=
  match a.ranges.toList with
  | [(first, last)] => if first = last then some (Char.ofNat first) else none
  | _ => none

def isAscii (a : CharSet) : Bool := a.ranges.all fun range => range.2 < 0x80

def union (a b : CharSet) : CharSet :=
  ofOrdered (a.ranges.toList.merge b.ranges.toList fun a b => a.1 ≤ b.1)

def gaps (low : Nat) : List (Nat × Nat) → List (Nat × Nat)
  | [] => between low 0x110000
  | range :: others => between low range.1 ++ gaps (range.2 + 1) others

def complement (a : CharSet) : CharSet := ⟨(gaps 0 a.ranges.toList).toArray⟩

def all : CharSet := complement empty

def inter (a b : CharSet) : CharSet := complement (union a.complement b.complement)

def difference (a b : CharSet) : CharSet := complement (union a.complement b)

def symmetric (a b : CharSet) : CharSet := union (difference a b) (difference b a)

end CharSet

end LatexOrigins.Pattern
