import LatexOrigins.Toml.Number
import LatexOrigins.Toml.Table

/-!
# Reading TOML

A document is a sequence of lines that are blank, define a key or open a table.
Values may span lines only inside strings and arrays. Arrays and tables nest to
a fixed depth.
-/

namespace LatexOrigins.Toml

def depthLimit : Nat := 80

def skipBlanks (l : List Char) : List Char := l.dropWhile isBlank

/-- Pass over blanks, line breaks and comments; `comment` tells whether the front
lies in a comment. -/
def skipTrivia (comment : Bool) : List Char → List Char
  | [] => []
  | c :: rest =>
    if comment && isPrintable c then skipTrivia true rest
    else if isBlank c || c = '\n' then skipTrivia false rest
    else if c = '#' then skipTrivia true rest
    else if c = '\r' && rest.head? = some '\n' then skipTrivia false rest
    else c :: rest

def endOfLine (l : List Char) : Except Error (List Char) :=
  let l := skipBlanks l
  let l :=
    match l with
    | '#' :: rest => rest.dropWhile isPrintable
    | _ => l
  match l with
  | [] => .ok []
  | _ =>
    match lineBreak? l with
    | some rest => .ok rest
    | none => .error .unexpected

def isBare (c : Char) : Bool := c.isAlphanum || c = '-' || c = '_'

def simpleKey (l : List Char) : Except Error (String × List Char) :=
  match l with
  | '"' :: rest => singleLine '"' rest
  | '\'' :: rest => singleLine '\'' rest
  | _ =>
    let name := l.takeWhile isBare
    if name.isEmpty then .error .badKey else .ok (String.ofList name, l.drop name.length)

/-- Keys with dots between them; `count` bounds their number. -/
def dottedKey : Nat → List Char → Except Error (List String × List Char)
  | 0, _ => .error .tooDeep
  | count + 1, l => do
    let (key, rest) ← simpleKey (skipBlanks l)
    match skipBlanks rest with
    | '.' :: rest =>
      let (keys, rest) ← dottedKey count rest
      pure (key :: keys, rest)
    | rest => pure ([key], rest)

def key (l : List Char) : Except Error (List String × List Char) := dottedKey (depthLimit - 1) l

def keyword (word : String) (value : Value) (l : List Char) : Except Error (Value × List Char) :=
  if word.toList.isPrefixOf l then .ok (value, l.drop word.length) else .error .unexpected

def tableOf (pairs : List (List String × Value)) : Except Error Value := do
  let entries ← pairs.foldlM (fun entries pair => define pair.1 pair.2 .header entries) []
  pure (.table (entryValues entries))

mutual

/-- A value; `count` bounds the number of characters and `nesting` counts what it
is nested in. -/
def value (nesting : Nat) : Nat → List Char → Except Error (Value × List Char)
  | 0, _ => .error .tooDeep
  | _ + 1, [] => .error .unexpected
  | count + 1, c :: rest =>
    if c = '"' || c = '\'' then do
      let (text, rest) ← quoted c rest
      pure (.string text, rest)
    else if c = '[' then
      if nesting + 1 < depthLimit then arrayItems (nesting + 1) [] count rest
      else .error .tooDeep
    else if c = '{' then
      if nesting + 1 < depthLimit then
        match skipBlanks rest with
        | '}' :: rest => .ok (.table [], rest)
        | rest => tableItems (nesting + 1) [] count rest
      else .error .tooDeep
    else if c = 't' then keyword "true" (.boolean true) (c :: rest)
    else if c = 'f' then keyword "false" (.boolean false) (c :: rest)
    else if looksLikeDate (c :: rest) then datetime (c :: rest)
    else number (c :: rest)

/-- The rest of an array, in front of which the items in `before` stand, last
first. -/
def arrayItems (nesting : Nat) (before : List Value) :
    Nat → List Char → Except Error (Value × List Char)
  | 0, _ => .error .tooDeep
  | count + 1, l =>
    match skipTrivia false l with
    | ']' :: rest => .ok (.array before.reverse, rest)
    | l => do
      let (item, rest) ← value nesting count l
      match skipTrivia false rest with
      | ',' :: rest => arrayItems nesting (item :: before) count rest
      | ']' :: rest => pure (.array (item :: before).reverse, rest)
      | _ => throw .unexpected

/-- The rest of a table on one line, in front of which the pairs in `before`
stand, last first. -/
def tableItems (nesting : Nat) (before : List (List String × Value)) :
    Nat → List Char → Except Error (Value × List Char)
  | 0, _ => .error .tooDeep
  | count + 1, l => do
    let (path, rest) ← key l
    match rest with
    | '=' :: rest =>
      let (item, rest) ← value nesting count (skipBlanks rest)
      match skipBlanks rest with
      | ',' :: rest => tableItems nesting ((path, item) :: before) count rest
      | '}' :: rest => do pure (← tableOf ((path, item) :: before).reverse, rest)
      | _ => throw .unexpected
    | _ => throw .unexpected

end

/-- A document read so far: all tables, and the keys of the last header. -/
structure Draft where
  root : Entries
  header : List String
  deriving Repr

def readHeader (draft : Draft) (l : List Char) : Except Error (Draft × List Char) :=
  match l with
  | '[' :: rest => do
    let (path, rest) ← key rest
    match rest with
    | ']' :: ']' :: rest =>
      pure (⟨← defineRow path draft.root, path⟩, ← endOfLine rest)
    | _ => throw .unexpected
  | _ => do
    let (path, rest) ← key l
    match rest with
    | ']' :: rest => pure (⟨← defineTable path draft.root, path⟩, ← endOfLine rest)
    | _ => throw .unexpected

def readPair (draft : Draft) (l : List Char) : Except Error (Draft × List Char) := do
  let (path, rest) ← key l
  match rest with
  | '=' :: rest =>
    let rest := skipBlanks rest
    let (item, rest) ← value 0 (2 * rest.length + 2) rest
    let rest ← endOfLine rest
    pure (⟨← defineIn draft.header path item draft.root, draft.header⟩, rest)
  | _ => throw .unexpected

/-- Read all lines; `count` bounds their number. -/
def readLines (draft : Draft) : Nat → List Char → Except Error Draft
  | 0, _ => .error .tooDeep
  | count + 1, l =>
    match skipBlanks l with
    | [] => .ok draft
    | c :: rest => do
      let (draft, rest) ←
        if c = '#' || c = '\n' || c = '\r' then do pure (draft, ← endOfLine (c :: rest))
        else if c = '[' then readHeader draft rest
        else readPair draft (c :: rest)
      readLines draft count rest

/-- The table of a document. A byte order mark in front of it does not count. -/
def ofText (text : String) : Except Error Value := do
  let l :=
    match text.toList with
    | '\ufeff' :: rest => rest
    | l => l
  let draft ← readLines ⟨[], []⟩ (l.length + 1) l
  pure (.table (entryValues draft.root))

end LatexOrigins.Toml
