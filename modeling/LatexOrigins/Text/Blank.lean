/-!
# White space

The characters with the Unicode property `White_Space`, and trimming of byte
sequences. Trimming works on the encoded forms, so it needs no decoding: a form
is removed from an end for as long as one stands there. In the text of valid
characters that removes exactly the blank characters, because no form is part
of another character's encoding.
-/

namespace LatexOrigins.Text

def blankChars : List Char :=
  ['\t', '\n', '\x0b', '\x0c', '\r', ' ', '\u0085', '\u00a0', '\u1680',
   '\u2000', '\u2001', '\u2002', '\u2003', '\u2004', '\u2005', '\u2006', '\u2007',
   '\u2008', '\u2009', '\u200a', '\u2028', '\u2029', '\u202f', '\u205f', '\u3000']

def isBlank (c : Char) : Bool := blankChars.contains c

def blankForms : List (List UInt8) := blankChars.map String.utf8EncodeChar

def dropForms (forms : List (List UInt8)) (l : List UInt8) : List UInt8 :=
  match _found : forms.find? (fun form => !form.isEmpty && form.isPrefixOf l) with
  | none => l
  | some form => dropForms forms (l.drop form.length)
termination_by l.length
decreasing_by
  have hf := List.find?_some _found
  simp only [Bool.and_eq_true, Bool.not_eq_true', List.isEmpty_eq_false_iff,
    List.isPrefixOf_iff_prefix] at hf
  have hlen := hf.2.length_le
  have hpos := List.length_pos_iff.2 hf.1
  simp only [List.length_drop]
  omega

def trimStart (l : List UInt8) : List UInt8 := dropForms blankForms l

def trimEnd (l : List UInt8) : List UInt8 :=
  (dropForms (blankForms.map List.reverse) l.reverse).reverse

def trim (l : List UInt8) : List UInt8 := trimEnd (trimStart l)

theorem dropForms_suffix (forms : List (List UInt8)) (l : List UInt8) :
    dropForms forms l <:+ l := by
  fun_induction dropForms forms l with
  | case1 => exact List.suffix_rfl
  | case2 l form _ ih => exact ih.trans (List.drop_suffix _ _)

theorem trimStart_suffix (l : List UInt8) : trimStart l <:+ l := dropForms_suffix _ _

theorem trimEnd_prefix (l : List UInt8) : trimEnd l <+: l := by
  have h := dropForms_suffix (blankForms.map List.reverse) l.reverse
  simpa [trimEnd] using List.reverse_prefix.2 h

end LatexOrigins.Text
