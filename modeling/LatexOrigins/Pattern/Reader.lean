import LatexOrigins.Pattern.SetReader
import LatexOrigins.Pattern.SimpleForm

/-!
# Reading patterns

A pattern is read from left to right. What has been read of the innermost group
is a list of branches; the groups around it wait on a stack. Each step reads at
least one character. A pattern may nest only so deep; groups, repetitions, and
branches and sequences of more than one item count.
-/

namespace LatexOrigins.Pattern

structure NestedExpr where
  expr : Expr
  depth : Nat
  deriving DecidableEq, Repr

/-- Something read in a branch: an expression, or flags, which cannot be
repeated. -/
inductive Item where
  | expr (e : NestedExpr)
  | flags
  deriving DecidableEq, Repr

namespace Item

def matched : Item → Expr
  | .expr e => e.expr
  | .flags => .empty

def depth : Item → Nat
  | .expr e => e.depth
  | .flags => 0

end Item

/-- What has been read of a group: finished branches and the items of the current
one, both last first. -/
structure Branches where
  finished : List NestedExpr
  items : List Item
  deriving DecidableEq, Repr

namespace Branches

def empty : Branches := ⟨[], []⟩

def current (b : Branches) : NestedExpr :=
  ⟨.concat (b.items.reverse.map Item.matched), nested (b.items.map Item.depth)⟩

def add (b : Branches) (item : Item) : Branches := { b with items := item :: b.items }

def split (b : Branches) : Branches := ⟨b.current :: b.finished, []⟩

def close (b : Branches) : NestedExpr :=
  let branches := b.split.finished
  ⟨.alternatives (branches.reverse.map NestedExpr.expr), nested (branches.map NestedExpr.depth)⟩

end Branches

structure OpenGroup where
  capture : Option Nat
  flags : Flags
  around : Branches
  deriving DecidableEq, Repr

structure Reader where
  flags : Flags
  here : Branches
  groups : List OpenGroup
  names : List (Option String)
  deriving DecidableEq, Repr

namespace Reader

def initial : Reader := ⟨.initial, .empty, [], []⟩

def add (r : Reader) (e : Expr) (depth : Nat) : Reader :=
  { r with here := r.here.add (.expr ⟨e, depth⟩) }

def literal (r : Reader) (c : Char) : Expr := .ofSet (closeCase r.flags (.single c))

def openGroup (r : Reader) (capture : Option (Option String)) (inside : Flags) : Reader :=
  let index := r.names.length + 1
  { flags := inside
    here := .empty
    groups := ⟨capture.map fun _ => index, r.flags, r.here⟩ :: r.groups
    names := capture.toList ++ r.names }

def closeGroup (r : Reader) : Except Error Reader :=
  match r.groups with
  | [] => .error .unopenedGroup
  | group :: outer =>
    let body := r.here.close
    let e :=
      match group.capture with
      | some index => .capture index body.expr
      | none => body.expr
    let item := Item.expr ⟨e, body.depth + 1⟩
    .ok { r with flags := group.flags, here := group.around.add item, groups := outer }

/-- Repeat the last expression. A `?` behind the bounds turns its greed around. -/
def repeatLast (r : Reader) (least : Nat) (most : Option Nat) (rest : List Char) :
    Except Error (Reader × List Char) :=
  match r.here.items with
  | .expr e :: before =>
    let (lazy, rest) :=
      match rest with
      | '?' :: rest => (true, rest)
      | _ => (false, rest)
    let greedy := lazy == r.flags.swapGreed
    let item := Item.expr ⟨.repeated least most greedy e.expr, e.depth + 1⟩
    .ok ({ r with here := { r.here with items := item :: before } }, rest)
  | _ => .error .nothingToRepeat

def skipSpaces (l : List Char) : List Char := l.dropWhile Text.isBlank

def decimal (l : List Char) : Except Error (Nat × List Char) :=
  let l := skipSpaces l
  let digits := l.takeWhile fun c => '0' ≤ c && c ≤ '9'
  let n := digits.foldl (fun n c => 10 * n + (c.toNat - '0'.toNat)) 0
  if digits.isEmpty || UInt32.size ≤ n then .error .badRepetition
  else .ok (n, skipSpaces (l.drop digits.length))

def bounds (flags : Flags) (l : List Char) : Except Error (Nat × Option Nat × List Char) := do
  let (least, rest) ← decimal (skipBlanks flags l)
  match rest with
  | '}' :: rest => pure (least, some least, rest)
  | ',' :: rest =>
    match skipBlanks flags rest with
    | '}' :: rest => pure (least, none, rest)
    | rest =>
      let (most, rest) ← decimal rest
      match rest with
      | '}' :: rest => if least ≤ most then pure (least, some most, rest) else throw .badRepetition
      | _ => throw .badRepetition
  | _ => throw .badRepetition

def isNameChar (first : Bool) (c : Char) : Bool :=
  c = '_' || alphabetic.contains c ||
    (!first && (['.', '[', ']'].contains c || numbers.contains c))

def groupName (r : Reader) (l : List Char) : Except Error (String × List Char) :=
  let name := l.takeWhile (· ≠ '>')
  match name, l.drop name.length with
  | first :: others, _ :: rest =>
    let text := String.ofList name
    if isNameChar true first && others.all (isNameChar false) && !r.names.contains (some text) then
      .ok (text, rest)
    else .error .badName
  | _, _ => .error .badName

/-- Letters of flags up to `:` or `)`. `seen` holds the letters so far, `last` the
one just read, and a `-` clears the flags behind it. -/
def readFlags (flags : Flags) (value : Bool) (seen : List Char) (last : Option Char) :
    List Char → Except Error (Flags × Char × List Char)
  | [] => .error .unclosedGroup
  | c :: rest =>
    if c = ':' || c = ')' then
      if last = some '-' then .error .badFlags else .ok (flags, c, rest)
    else if c = '-' then
      if value then readFlags flags false seen (some c) rest else .error .badFlags
    else if seen.contains c then .error .badFlags
    else
      match flags.set? c value with
      | some flags => readFlags flags value (c :: seen) (some c) rest
      | none => .error .badFlags

def readGroup (r : Reader) (l : List Char) : Except Error (Reader × List Char) :=
  let named (rest : List Char) : Except Error (Reader × List Char) := do
    let (name, rest) ← r.groupName rest
    pure (r.openGroup (some (some name)) r.flags, rest)
  match skipBlanks r.flags l with
  | '?' :: '=' :: _ => .error .badGroup
  | '?' :: '!' :: _ => .error .badGroup
  | '?' :: '<' :: '=' :: _ => .error .badGroup
  | '?' :: '<' :: '!' :: _ => .error .badGroup
  | '?' :: 'P' :: '<' :: rest => named rest
  | '?' :: '<' :: rest => named rest
  | '?' :: ')' :: _ => .error .nothingToRepeat
  | '?' :: rest => do
    let (flags, close, rest) ← readFlags r.flags true [] none rest
    if close = ':' then pure (r.openGroup none flags, rest)
    else pure ({ r with flags := flags, here := r.here.add .flags }, rest)
  | rest => .ok (r.openGroup (some none) r.flags, rest)

/-- The dot: any character but a line break, or any character at all. -/
def dot (flags : Flags) : Except Error CharSet :=
  if !flags.unicode then .error .notText
  else if flags.dotAll then .ok .all
  else if flags.crlf then .ok (.complement (.ofChars ['\r', '\n']))
  else .ok (.complement (.single '\n'))

def step (r : Reader) (c : Char) (rest : List Char) : Except Error (Reader × List Char) :=
  match c with
  | '(' => r.readGroup rest
  | ')' => do pure (← r.closeGroup, rest)
  | '|' => .ok ({ r with here := r.here.split }, rest)
  | '[' => do
    let (set, rest) ← setBody (rest.length + 1) r.flags rest
    pure (r.add (.ofSet set.set) set.depth, rest)
  | '?' => r.repeatLast 0 (some 1) rest
  | '*' => r.repeatLast 0 none rest
  | '+' => r.repeatLast 1 none rest
  | '{' => do
    let (least, most, rest) ← bounds r.flags rest
    r.repeatLast least most (skipBlanks r.flags rest)
  | '.' => do pure (r.add (.ofSet (← dot r.flags)) 0, rest)
  | '^' =>
    let condition := if r.flags.multiLine then Look.lineStart r.flags.crlf else .textStart
    .ok (r.add (.look condition) 0, rest)
  | '$' =>
    let condition := if r.flags.multiLine then Look.lineEnd r.flags.crlf else .textEnd
    .ok (r.add (.look condition) 0, rest)
  | '\\' => do
    match ← escape r.flags rest with
    | (.char c, rest) => pure (r.add (r.literal c) 0, rest)
    | (.set set, rest) => pure (r.add (.ofSet set) 0, rest)
    | (.look condition, rest) => pure (r.add (.look condition) 0, rest)
  | c => .ok (r.add (r.literal c) 0, rest)

/-- Read all characters; `count` bounds their number. -/
def readAll : Nat → Reader → List Char → Except Error Reader
  | 0, _, _ => .error .tooBig
  | count + 1, r, l =>
    match skipBlanks r.flags l with
    | [] => .ok r
    | c :: rest => do
      let (r, rest) ← r.step c rest
      readAll count r rest

end Reader

def nestingLimit : Nat := 250

/-- The expression that a text describes, and the names of its captures, in the
order of their numbers. -/
def Expr.ofText (text : String) : Except Error (Expr × List (Option String)) := do
  let l := text.toList
  let r ← Reader.readAll (l.length + 1) .initial l
  match r.groups with
  | [] =>
    let e := r.here.close
    if nestingLimit < e.depth then throw .tooDeep
    pure (e.expr, r.names.reverse)
  | _ => throw .unclosedGroup

end LatexOrigins.Pattern
