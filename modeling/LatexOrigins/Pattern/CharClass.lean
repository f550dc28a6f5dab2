import LatexOrigins.Pattern.Property
import LatexOrigins.Text.Blank

/-!
# Classes of characters

The classes that a pattern can name with a letter, and those that it can name in
a set.
-/

namespace LatexOrigins.Pattern

inductive CharClass where
  | digit
  | space
  | word
  deriving DecidableEq, Repr

namespace CharClass

def chars : CharClass → CharSet
  | .digit => decimalDigits
  | .space => .ofChars Text.blankChars
  | .word => wordChars

def asciiChars (cls : CharClass) : CharSet := cls.chars.inter (.range '\x00' '\x7f')

end CharClass

def asciiWordChars : CharSet := CharClass.word.asciiChars

def asciiClass? (name : String) : Option CharSet :=
  let ranges? : Option (List (Char × Char)) :=
    match name with
    | "alnum" => some [('0', '9'), ('A', 'Z'), ('a', 'z')]
    | "alpha" => some [('A', 'Z'), ('a', 'z')]
    | "ascii" => some [('\x00', '\x7f')]
    | "blank" => some [('\t', '\t'), (' ', ' ')]
    | "cntrl" => some [('\x00', '\x1f'), ('\x7f', '\x7f')]
    | "digit" => some [('0', '9')]
    | "graph" => some [('!', '~')]
    | "lower" => some [('a', 'z')]
    | "print" => some [(' ', '~')]
    | "punct" => some [('!', '/'), (':', '@'), ('[', '\x60'), ('{', '~')]
    | "space" => some [('\t', '\r'), (' ', ' ')]
    | "upper" => some [('A', 'Z')]
    | "word" => some [('0', '9'), ('A', 'Z'), ('_', '_'), ('a', 'z')]
    | "xdigit" => some [('0', '9'), ('A', 'F'), ('a', 'f')]
    | _ => none
  ranges?.map fun ranges => ranges.foldl (fun set r => set.union (.range r.1 r.2)) .empty

end LatexOrigins.Pattern
