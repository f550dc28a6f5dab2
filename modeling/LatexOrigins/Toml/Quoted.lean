import LatexOrigins.Toml.Basic

/-!
# Strings in TOML

Strings come in two kinds, with and without escapes, and each on one line or on
several. Tabs aside no control character may stand in a string; on several lines
a line break may, and counts as a line feed however it is written.
-/

namespace LatexOrigins.Toml

def isBlank (c : Char) : Bool := c = ' ' || c = '\t'

def isPrintable (c : Char) : Bool := c = '\t' || (0x20 ≤ c.toNat && c.toNat ≠ 0x7f)

def lineBreak? : List Char → Option (List Char)
  | '\n' :: rest => some rest
  | '\r' :: '\n' :: rest => some rest
  | _ => none

def digit? (base : Nat) (c : Char) : Option Nat :=
  let n :=
    if '0' ≤ c ∧ c ≤ '9' then c.toNat - '0'.toNat
    else if 'a' ≤ c ∧ c ≤ 'f' then c.toNat - 'a'.toNat + 10
    else if 'A' ≤ c ∧ c ≤ 'F' then c.toNat - 'A'.toNat + 10
    else 16
  if n < base then some n else none

def numbered (digits : Nat) (l : List Char) : Except Error (Char × List Char) :=
  if l.length < digits then .error .badString
  else
    match (l.take digits).foldlM (fun n c => (digit? 16 c).map (16 * n + ·)) 0 with
    | none => .error .badString
    | some n =>
      if h : n.isValidChar then .ok (Char.ofNatAux n h, l.drop digits) else .error .badString

def escaped : List Char → Except Error (Char × List Char)
  | 'b' :: rest => .ok ('\x08', rest)
  | 't' :: rest => .ok ('\t', rest)
  | 'n' :: rest => .ok ('\n', rest)
  | 'f' :: rest => .ok ('\x0c', rest)
  | 'r' :: rest => .ok ('\r', rest)
  | '"' :: rest => .ok ('"', rest)
  | '\\' :: rest => .ok ('\\', rest)
  | 'u' :: rest => numbered 4 rest
  | 'U' :: rest => numbered 8 rest
  | _ => .error .badString

/-- The rest of a string on one line, after its opening quote; `count` bounds its
length. -/
def lineString (quote : Char) (escapes : Bool) :
    Nat → List Char → Except Error (List Char × List Char)
  | 0, _ => .error .badString
  | _ + 1, [] => .error .badString
  | count + 1, c :: rest =>
    if c = quote then .ok ([], rest)
    else if escapes && c = '\\' then do
      let (e, rest) ← escaped rest
      let (tail, rest) ← lineString quote escapes count rest
      pure (e :: tail, rest)
    else if isPrintable c then do
      let (tail, rest) ← lineString quote escapes count rest
      pure (c :: tail, rest)
    else
      .error .badString

def skipLines : Nat → List Char → List Char
  | 0, l => l
  | count + 1, l =>
    let l := l.dropWhile isBlank
    match lineBreak? l with
    | some rest => skipLines count rest
    | none => l

/-- What follows the line break that a backslash takes away, with all blanks and
line breaks behind it. -/
def joinedLine? (l : List Char) : Option (List Char) :=
  (lineBreak? (l.dropWhile isBlank)).map (skipLines l.length)

/-- The rest of a string on several lines, after its opening quotes; `count`
bounds its length. Up to two quotes in a row belong to it, also before the
closing ones. -/
def blockString (quote : Char) (escapes : Bool) :
    Nat → List Char → Except Error (List Char × List Char)
  | 0, _ => .error .badString
  | _ + 1, [] => .error .badString
  | count + 1, c :: rest =>
    let l := c :: rest
    if c = quote then
      let run := (l.takeWhile (· = quote)).length
      if run < 3 then do
        let (tail, rest) ← blockString quote escapes count (l.drop run)
        pure (List.replicate run quote ++ tail, rest)
      else
        let extra := min (run - 3) 2
        .ok (List.replicate extra quote, l.drop (extra + 3))
    else
      match lineBreak? l with
      | some rest => do
        let (tail, rest) ← blockString quote escapes count rest
        pure ('\n' :: tail, rest)
      | none =>
        if escapes && c = '\\' then
          match joinedLine? rest with
          | some rest => blockString quote escapes count rest
          | none => do
            let (e, rest) ← escaped rest
            let (tail, rest) ← blockString quote escapes count rest
            pure (e :: tail, rest)
        else if isPrintable c then do
          let (tail, rest) ← blockString quote escapes count rest
          pure (c :: tail, rest)
        else
          .error .badString

def singleLine (quote : Char) (rest : List Char) : Except Error (String × List Char) := do
  let (chars, rest) ← lineString quote (quote = '"') (rest.length + 1) rest
  pure (String.ofList chars, rest)

/-- The rest of a string after one opening quote. With two more quotes it is on
several lines; a line break directly behind those does not belong to it. -/
def quoted (quote : Char) (rest : List Char) : Except Error (String × List Char) :=
  match rest with
  | a :: b :: inner =>
    if a = quote ∧ b = quote then do
      let inner := (lineBreak? inner).getD inner
      let (chars, rest) ← blockString quote (quote = '"') (inner.length + 1) inner
      pure (String.ofList chars, rest)
    else singleLine quote rest
  | _ => singleLine quote rest

end LatexOrigins.Toml
