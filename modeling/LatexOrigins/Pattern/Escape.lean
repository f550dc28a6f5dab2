import LatexOrigins.Pattern.Error
import LatexOrigins.Pattern.Expr

/-!
# Flags and escapes in patterns

The flags that change what the rest of a group means, and what a backslash and
the characters after it stand for.
-/

namespace LatexOrigins.Pattern

structure Flags where
  ignoreCase : Bool
  multiLine : Bool
  dotAll : Bool
  swapGreed : Bool
  unicode : Bool
  crlf : Bool
  verbose : Bool
  deriving DecidableEq, Repr

namespace Flags

def initial : Flags := ⟨false, false, false, false, true, false, false⟩

def set? (flags : Flags) (letter : Char) (value : Bool) : Option Flags :=
  match letter with
  | 'i' => some { flags with ignoreCase := value }
  | 'm' => some { flags with multiLine := value }
  | 's' => some { flags with dotAll := value }
  | 'U' => some { flags with swapGreed := value }
  | 'u' => some { flags with unicode := value }
  | 'R' => some { flags with crlf := value }
  | 'x' => some { flags with verbose := value }
  | _ => none

end Flags

inductive Escape where
  | char (c : Char)
  | set (set : CharSet)
  | look (condition : Look)
  deriving DecidableEq, Repr

def metaChars : List Char :=
  ['\\', '.', '+', '*', '?', '(', ')', '|', '[', ']', '{', '}', '^', '$', '#', '&', '-', '~']

def isEscapable (c : Char) : Bool :=
  metaChars.contains c || (c.toNat < 0x80 && !c.isAlphanum && c ≠ '<' && c ≠ '>')

def hexValue? (c : Char) : Option Nat :=
  if '0' ≤ c ∧ c ≤ '9' then some (c.toNat - '0'.toNat)
  else if 'a' ≤ c ∧ c ≤ 'f' then some (c.toNat - 'a'.toNat + 10)
  else if 'A' ≤ c ∧ c ≤ 'F' then some (c.toNat - 'A'.toNat + 10)
  else none

def hexNumber? (digits : List Char) : Option Nat :=
  if digits.isEmpty then none
  else digits.foldlM (fun n c => (hexValue? c).map (16 * n + ·)) 0

def charOfNumber? (n : Nat) : Option Char :=
  if h : n.isValidChar then some (Char.ofNatAux n h) else none

/-- A character by number: so many hexadecimal digits, or any number of them in
braces. -/
def numbered (digits : Nat) (l : List Char) : Except Error (Char × List Char) :=
  let (number, rest) :=
    match l with
    | '{' :: inner =>
      let inside := inner.takeWhile (· ≠ '}')
      match inner.drop inside.length with
      | _ :: rest => (hexNumber? inside, rest)
      | [] => (none, [])
    | _ =>
      if l.length < digits then (none, []) else (hexNumber? (l.take digits), l.drop digits)
  match number.bind charOfNumber? with
  | some c => .ok (c, rest)
  | none => .error .badEscape

/-- A named class, or what is not in it. Without Unicode the rest of a class holds
bytes that are no characters. -/
def namedSet (flags : Flags) (cls : CharClass) (negated : Bool) : Except Error CharSet :=
  if flags.unicode then .ok (if negated then .complement cls.chars else cls.chars)
  else if negated then .error .notText
  else .ok cls.asciiChars

/-- A character by the number of a byte, in two hexadecimal digits or in braces.
Without Unicode, two digits stand for the byte itself, which may be no character. -/
def numberedByte (flags : Flags) (l : List Char) : Except Error (Char × List Char) := do
  let (c, rest) ← numbered 2 l
  if flags.unicode || c.toNat < 0x80 || l.head? = some '{' then pure (c, rest)
  else throw .notText

def namedBoundary? (ascii : Bool) (name : String) : Option Look :=
  match name with
  | "start" => some (.wordStart ascii)
  | "end" => some (.wordEnd ascii)
  | "start-half" => some (.noWordBefore ascii)
  | "end-half" => some (.noWordAfter ascii)
  | _ => none

/-- A word boundary, after its letter. Braces with a letter behind them name a
kind of boundary. -/
def boundary (ascii : Bool) (l : List Char) : Except Error (Look × List Char) :=
  match l with
  | '{' :: c :: rest =>
    if c.isAlpha || c = '-' then
      let name := (c :: rest).takeWhile fun c => c.isAlpha || c = '-'
      match (c :: rest).drop name.length, namedBoundary? ascii (String.ofList name) with
      | '}' :: rest, some condition => .ok (condition, rest)
      | _, _ => .error .badEscape
    else
      .ok (.boundary ascii, l)
  | _ => .ok (.boundary ascii, l)

def escape (flags : Flags) (l : List Char) : Except Error (Escape × List Char) :=
  let ascii := !flags.unicode
  let named (cls : CharClass) (negated : Bool) (rest : List Char) :
      Except Error (Escape × List Char) := do
    pure (.set (← namedSet flags cls negated), rest)
  let number (numbered : List Char → Except Error (Char × List Char)) (rest : List Char) :
      Except Error (Escape × List Char) := do
    let (c, rest) ← numbered rest
    pure (.char c, rest)
  match l with
  | [] => .error .badEscape
  | c :: rest =>
    if isEscapable c then .ok (.char c, rest)
    else
      match c with
      | 'a' => .ok (.char '\x07', rest)
      | 'f' => .ok (.char '\x0c', rest)
      | 'n' => .ok (.char '\n', rest)
      | 'r' => .ok (.char '\r', rest)
      | 't' => .ok (.char '\t', rest)
      | 'v' => .ok (.char '\x0b', rest)
      | 'x' => number (numberedByte flags) rest
      | 'u' => number (numbered 4) rest
      | 'U' => number (numbered 8) rest
      | 'd' => named .digit false rest
      | 'D' => named .digit true rest
      | 's' => named .space false rest
      | 'S' => named .space true rest
      | 'w' => named .word false rest
      | 'W' => named .word true rest
      | 'A' => .ok (.look .textStart, rest)
      | 'z' => .ok (.look .textEnd, rest)
      | 'B' => .ok (.look (.noBoundary ascii), rest)
      | '<' => .ok (.look (.wordStart ascii), rest)
      | '>' => .ok (.look (.wordEnd ascii), rest)
      | 'b' => do
        let (condition, rest) ← boundary ascii rest
        pure (.look condition, rest)
      | _ => .error .badEscape

end LatexOrigins.Pattern
