import LatexOrigins.Pattern.CaseFolding
import LatexOrigins.Pattern.Escape

/-!
# Reading sets of characters

A set in brackets lists characters, ranges and classes, may be negated and may
hold further sets. The operators `&&`, `--` and `~~` combine what stands to
their left and right, from left to right. How deep a pattern is nested counts sets
in brackets, lists of several items and operators.
-/

namespace LatexOrigins.Pattern

def closeCase (flags : Flags) (set : CharSet) : CharSet :=
  if flags.ignoreCase then set.folded (!flags.unicode) else set

/-- What is not in a set. Without Unicode that includes bytes that are no
characters. -/
def negate (flags : Flags) (negated : Bool) (set : CharSet) : Except Error CharSet :=
  if !negated then .ok set
  else if flags.unicode then .ok (.complement set)
  else .error .notText

/-- A class `[:name:]` in front of what follows its bracket, if there is one. -/
def namedClass? (flags : Flags) (l : List Char) : Option (Except Error CharSet × List Char) :=
  match l with
  | ':' :: rest =>
    let negated := rest.head? = some '^'
    let rest := if negated then rest.drop 1 else rest
    let name := rest.takeWhile (· ≠ ':')
    match rest.drop name.length with
    | ':' :: ']' :: rest => do
      let set ← asciiClass? (String.ofList name)
      pure (negate flags negated (closeCase flags set), rest)
    | _ => none
  | _ => none

def skipBlanks (flags : Flags) (l : List Char) : List Char :=
  if flags.verbose then skip false l else l
where
  skip (comment : Bool) : List Char → List Char
    | [] => []
    | c :: rest =>
      if comment then skip (c ≠ '\n') rest
      else if Text.isBlank c then skip false rest
      else if c = '#' then skip true rest
      else c :: rest

def setItem (flags : Flags) (l : List Char) : Except Error (CharSet × Option Char × List Char) :=
  match l with
  | [] => .error .unclosedSet
  | '\\' :: rest => do
    match ← escape flags rest with
    | (.char c, rest) => pure (.single (← member flags c), some c, rest)
    | (.set set, rest) => pure (set, none, rest)
    | (.look _, _) => throw .badEscape
  | c :: rest => do pure (.single (← member flags c), some c, rest)
where
  /-- A character that a set can hold. Without Unicode a set holds bytes. -/
  member (flags : Flags) (c : Char) : Except Error Char :=
    if flags.unicode || c.toNat < 0x80 then .ok c else .error .notText

def setRange (flags : Flags) (l : List Char) : Except Error (CharSet × List Char) := do
  let (set, first, rest) ← setItem flags l
  match skipBlanks flags rest with
  | [] => throw .unclosedSet
  | '-' :: rest =>
    match (skipBlanks flags rest).head? with
    | some ']' => pure (set, '-' :: rest)
    | some '-' => pure (set, '-' :: rest)
    | _ =>
      let (_, last, rest) ← setItem flags (skipBlanks flags rest)
      match first, last with
      | some first, some last =>
        if first ≤ last then pure (.range first last, rest) else throw .badRange
      | _, _ => throw .badRange
  | rest => pure (set, rest)

inductive SetOp where
  | inter
  | difference
  | symmetric
  deriving DecidableEq, Repr

def SetOp.apply : SetOp → CharSet → CharSet → CharSet
  | .inter => CharSet.inter
  | .difference => CharSet.difference
  | .symmetric => CharSet.symmetric

def setOp? : List Char → Option (SetOp × List Char)
  | '&' :: '&' :: rest => some (.inter, rest)
  | '-' :: '-' :: rest => some (.difference, rest)
  | '~' :: '~' :: rest => some (.symmetric, rest)
  | _ => none

/-- How deep something is nested that holds parts of these depths. A single part
adds nothing. -/
def nested : List Nat → Nat
  | [] => 0
  | [depth] => depth
  | depths => depths.foldl max 0 + 1

structure NestedSet where
  set : CharSet
  depth : Nat
  deriving DecidableEq, Repr

structure SetItems where
  set : CharSet
  depths : List Nat
  deriving DecidableEq, Repr

namespace SetItems

def empty : SetItems := ⟨.empty, []⟩

def add (items : SetItems) (item : NestedSet) : SetItems :=
  ⟨items.set.union item.set, item.depth :: items.depths⟩

def whole (items : SetItems) : NestedSet := ⟨items.set, nested items.depths⟩

end SetItems

/-- The characters that stand for themselves at the start of a set only: any
number of `-`, or else a `]`. -/
def setLead (flags : Flags) (l : List Char) : SetItems × List Char :=
  let l := skipBlanks flags l
  match dashes l with
  | (0, ']' :: rest) => (⟨.single ']', [0]⟩, rest)
  | (0, rest) => (.empty, rest)
  | (n + 1, rest) => (⟨.single '-', List.replicate (n + 1) 0⟩, rest)
where
  dashes : List Char → Nat × List Char
    | '-' :: rest =>
      let (n, rest) := dashes rest
      (n + 1, skipBlanks flags rest)
    | rest => (0, rest)

/-- The rest of a set after its opening bracket; `count` bounds how deep sets nest
and how long they are. -/
def setBody (count : Nat) (flags : Flags) (l : List Char) : Except Error (NestedSet × List Char) :=
  let l := skipBlanks flags l
  let negated := l.head? = some '^'
  let (lead, rest) := setLead flags (if negated then l.drop 1 else l)
  do
    let (body, rest) ← items count id lead rest
    pure (⟨← negate flags negated (closeCase flags body.set), body.depth + 1⟩, rest)
where
  /-- The items of a set up to its closing bracket. `before` combines what stood
  left of the last operator with the items since then, which are in `here`. -/
  items : Nat → (NestedSet → NestedSet) → SetItems → List Char →
      Except Error (NestedSet × List Char)
    | 0, _, _, _ => .error .tooBig
    | count + 1, before, here, l =>
      match skipBlanks flags l with
      | [] => .error .unclosedSet
      | ']' :: rest => .ok (before here.whole, rest)
      | '[' :: rest =>
        match namedClass? flags rest with
        | some (set, rest) => do items count before (here.add ⟨← set, 0⟩) rest
        | none => do
          let (set, rest) ← setBody count flags rest
          items count before (here.add set) rest
      | l =>
        match setOp? l with
        | some (op, rest) =>
          let left := before here.whole
          let combine (right : NestedSet) : NestedSet :=
            ⟨op.apply (closeCase flags left.set) (closeCase flags right.set),
              max left.depth right.depth + 1⟩
          items count combine .empty rest
        | none => do
          let (set, rest) ← setRange flags l
          items count before (here.add ⟨set, 0⟩) rest

end LatexOrigins.Pattern
