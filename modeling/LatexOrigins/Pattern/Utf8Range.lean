import LatexOrigins.Pattern.CharSet

/-!
# Ranges of characters as ranges of bytes

The encodings of the characters of a range are a union of products of byte ranges,
once the range is cut where encodings get longer, and where a later byte would not
run through all of its values.
-/

namespace LatexOrigins.Pattern

structure ByteRange where
  first : UInt8
  last : UInt8
  deriving DecidableEq, Repr

/-- The code points before which a range may have to be cut: where encodings get
longer, and the ends of the blocks in which the last bytes run through all values. -/
def cuts (first last : Nat) : List Nat :=
  [0x80, 0x800, 0x10000] ++
    if last < 0x80 then []
    else [0x40, 0x1000, 0x40000].flatMap fun block =>
      [(first + block - 1) / block * block, (last + 1) / block * block]

def cut? (first last : Nat) : Option Nat :=
  (cuts first last).find? fun cut => first < cut && cut ≤ last

theorem within_of_cut? {first last cut : Nat} (h : cut? first last = some cut) :
    first < cut ∧ cut ≤ last := by
  simpa using List.find?_some h

/-- The byte ranges, one after the other, whose products are the encodings of the
characters of a range without surrogates. -/
def byteRanges (first last : Nat) : List (List ByteRange) :=
  match _found : cut? first last with
  | some cut => byteRanges first (cut - 1) ++ byteRanges cut last
  | none =>
    [List.zipWith ByteRange.mk (String.utf8EncodeChar (Char.ofNat first))
      (String.utf8EncodeChar (Char.ofNat last))]
termination_by last - first
decreasing_by all_goals have := within_of_cut? _found; omega

def CharSet.byteRanges (set : CharSet) : List (List ByteRange) :=
  set.ranges.toList.flatMap fun range => Pattern.byteRanges range.1 range.2

end LatexOrigins.Pattern
