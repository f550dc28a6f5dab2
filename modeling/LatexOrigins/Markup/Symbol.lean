/-!
# Symbols of the markup

The bytes that mean something in the markup, and measures of what stands at the
front of a byte sequence. Measures are relative: they count from the front and
do not depend on where in a file the sequence starts.
-/

namespace LatexOrigins.Markup

def backslash : UInt8 := 0x5c
def percent : UInt8 := 0x25
def leftBrace : UInt8 := 0x7b
def rightBrace : UInt8 := 0x7d
def leftBracket : UInt8 := 0x5b
def rightBracket : UInt8 := 0x5d
def dollar : UInt8 := 0x24
def tilde : UInt8 := 0x7e
def star : UInt8 := 0x2a
def lineBreak : UInt8 := 0x0a

/-- A blank that separates a command from its arguments: space or tab. -/
def isInlineBlank (b : UInt8) : Bool := b = 0x20 || b = 0x09

def isLetter (b : UInt8) : Bool := (0x41 ≤ b && b ≤ 0x5a) || (0x61 ≤ b && b ≤ 0x7a)

def isGraphic (b : UInt8) : Bool := 0x21 ≤ b && b ≤ 0x7e

def isContinuation (b : UInt8) : Bool := 0x80 ≤ b && b < 0xc0

def spanLength (test : UInt8 → Bool) (l : List UInt8) : Nat := (l.takeWhile test).length

theorem spanLength_le (test : UInt8 → Bool) (l : List UInt8) : spanLength test l ≤ l.length :=
  (List.takeWhile_prefix test).length_le

def restOfLine (l : List UInt8) : List UInt8 := l.takeWhile (· ≠ lineBreak)

def charWidth : List UInt8 → Nat
  | [] => 0
  | _ :: rest => 1 + spanLength isContinuation rest

/-- The width of the control word name at the front; zero without a letter. -/
def wordWidth (l : List UInt8) : Nat := spanLength isLetter l

def starWidth (l : List UInt8) : Nat := if l.head? = some star then 1 else 0

def indexOf? (needle : List UInt8) : List UInt8 → Option Nat
  | [] => if needle.isEmpty then some 0 else none
  | b :: rest =>
    if needle.isPrefixOf (b :: rest) then some 0
    else (indexOf? needle rest).map (· + 1)

/-- Where a sequence of bytes first occurs in another, when a backslash and the
byte after it are passed over together. -/
def unescapedIndexOf? (needle : List UInt8) : List UInt8 → Option Nat
  | [] => none
  | b :: rest =>
    if needle.isPrefixOf (b :: rest) then some 0
    else if b = backslash then
      match rest with
      | [] => none
      | _ :: rest => (unescapedIndexOf? needle rest).map (· + 2)
    else
      (unescapedIndexOf? needle rest).map (· + 1)

end LatexOrigins.Markup
