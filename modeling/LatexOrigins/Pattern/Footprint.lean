import LatexOrigins.Pattern.SimpleForm
import LatexOrigins.Pattern.Utf8Range

/-!
# The size of automata

How big an expression may get is a matter of memory: of the two automata over bytes
that belong to it, one that reads a text forwards and remembers captures, and one that
reads it backwards, from the end of a match to its start. Each must fit into ten
mebibytes. A state takes 32 bytes, a branch 4 more for each state it leads to, and a
state with a list of byte ranges 8 more for each range.
-/

namespace LatexOrigins.Pattern

structure Footprint where
  states : Nat
  links : Nat
  deriving DecidableEq, Repr

namespace Footprint

def limit : Nat := 10 * Nat.pow 2 20

def empty : Footprint := ⟨0, 0⟩

def bytes (m : Footprint) : Nat := 32 * m.states + m.links

def grow (m : Footprint) (states links : Nat) : Option Footprint :=
  let m : Footprint := ⟨m.states + states, m.links + links⟩
  if m.bytes ≤ limit then some m else none

def add (a b : Footprint) : Footprint := ⟨a.states + b.states, a.links + b.links⟩

def link (branch : Bool) : Nat := if branch then 4 else 0

def copies (copy : Footprint → Option Footprint) : Nat → Footprint → Option Footprint
  | 0, m => some m
  | n + 1, m =>
    match copy m with
    | some m => copies copy n m
    | none => none

end Footprint

/-- The rests of some sequences of byte ranges, grouped by the first range. Sequences
that start alike stand together. -/
def headGroups (sequences : List (List ByteRange)) : List (List (List ByteRange)) :=
  (sequences.splitBy fun a b => a.head? == b.head?).map fun group => group.map List.tail

/-- The states from which sequences of at most `depth` byte ranges are read; a state is
what is still to be read. -/
def readingStates : Nat → List (List ByteRange) → List (List (List ByteRange))
  | 0, _ => []
  | depth + 1, sequences =>
    if sequences.all List.isEmpty then []
    else sequences :: (headGroups sequences).flatMap (readingStates depth)

/-- The size with an automaton that reads sequences of byte ranges forwards: a state
for each different list of rests, and one behind them all. -/
def Footprint.forwardSet (m : Footprint) (sequences : List (List ByteRange)) : Option Footprint :=
  let states := (readingStates 4 sequences).eraseDups
  m.grow (states.length + 1) (8 * (states.flatMap headGroups).length)

structure RangeStep where
  range : ByteRange
  target : Nat
  deriving DecidableEq, Repr

/-- The states that take a step, in a table with 1000 places. A newer step drives out
an older one. -/
abbrev StateTable := Array (Option (RangeStep × Nat))

namespace StateTable

/-- The place of a step: a hash of its parts. -/
def place (step : RangeStep) : Nat :=
  let hash := [step.target.toUInt64, step.range.first.toUInt64, step.range.last.toUInt64].foldl
    (fun hash part => (hash ^^^ part) * 1099511628211) 14695981039346656037
  (hash % 1000).toNat

def find? (table : StateTable) (step : RangeStep) : Option Nat :=
  match table.getD (place step) none with
  | some (known, state) => if known = step then some state else none
  | none => none

def insert (table : StateTable) (step : RangeStep) (state : Nat) : StateTable :=
  table.setIfInBounds (place step) (some (step, state))

/-- Make the states that lead to `target` by a sequence of byte ranges, which is read
from its end to its start. Those that the table has are made already. Also the number
of states then. -/
def addPath (target : Nat) : StateTable → Nat → List ByteRange → StateTable × Nat
  | table, states, [] => (table, states)
  | table, states, range :: others =>
    match table.find? ⟨range, target⟩ with
    | some state => addPath state table states others
    | none => addPath states (table.insert ⟨range, target⟩ states) (states + 1) others

end StateTable

/-- The size with an automaton that reads sequences of byte ranges backwards: a branch
to the end of each, and a state in front of them all. Sequences that start alike share
the states for their starts, as far as the table has them. -/
def Footprint.backwardSet (m : Footprint) (sequences : List (List ByteRange)) : Option Footprint :=
  let target := m.states + 1
  let (_, states) := sequences.foldl
    (fun (table, states) sequence => StateTable.addPath target table states sequence)
    (Array.replicate 1000 none, m.states + 2)
  m.grow (states - m.states) (4 * sequences.length)

def Footprint.set (m : Footprint) (direction : Direction) (set : CharSet) : Option Footprint :=
  if set.isAscii then m.grow 2 (8 * set.ranges.size)
  else
    match direction with
    | .forward => m.forwardSet set.byteRanges
    | .backward => m.backwardSet set.byteRanges

/-- The size of a tree that reads one of some words, which are shorter than `depth`;
of those that match, the first counts. Words that start alike share the branches for
their starts. A branch leads to the words that go on and out of the tree where one
ends; the words in front of one that ends and those behind it are read by different
states. -/
def wordTree : Nat → List (List UInt8) → Footprint
  | 0, _ => .empty
  | depth + 1, words =>
    if words.all List.isEmpty then .empty
    else
      let ends := min 1 (words.takeWhile List.isEmpty).length +
        (words.dropWhile List.isEmpty).countP List.isEmpty
      let chunks := (words.splitBy fun a b => a.isEmpty == b.isEmpty).filter fun chunk =>
        chunk.any fun word => !word.isEmpty
      let sizes := chunks.flatMap fun chunk =>
        let heads := (chunk.map List.head?).eraseDups
        let next : Footprint := ⟨1, if heads.length = 1 then 0 else 8 * heads.length⟩
        next :: heads.map fun head =>
          wordTree depth ((chunk.filter fun word => word.head? = head).map List.tail)
      sizes.foldl .add ⟨1, 4 * (chunks.length + ends)⟩

namespace Expr

def literal? : Expr → Option (List Char)
  | .literal first rest => some (first :: rest)
  | _ => none

def words? (e : Expr) : Option (List (List UInt8)) :=
  (e.branches.mapM literal?).map fun words => words.map (·.flatMap String.utf8EncodeChar)

/-- The size with the automaton for an expression, and whether that ends with a branch.
The first two of some alternatives are built before the states that join them; `before`
counts the alternatives in front of the expression. -/
def build (direction : Direction) : Expr → Nat → Footprint → Option (Bool × Footprint)
  | .empty, _, m => do pure (false, ← m.grow 1 0)
  | .literal first rest, _, m => do
    pure (false, ← m.grow (first :: rest |>.map Char.utf8Size).sum 0)
  | .char set, _, m => do pure (false, ← m.set direction set)
  | .look _, _, m => do pure (false, ← m.grow 1 0)
  | .capture _ body, _, m =>
    match direction with
    | .forward => do
      let (branch, m) ← body.build direction 0 (← m.grow 1 0)
      pure (false, ← m.grow 1 (Footprint.link branch))
    | .backward => body.build direction 0 m
  | .seq a b, _, m =>
    match direction with
    | .forward => do
      let (branch, m) ← a.build direction 0 m
      b.build direction 0 (← m.grow 0 (Footprint.link branch))
    | .backward => do
      let (branch, m) ← b.build direction 0 m
      a.build direction 0 (← m.grow 0 (Footprint.link branch))
  | .alt a b, before, m =>
    match if before = 0 then (Expr.alt a b).words? else none with
    | some words => do
      let words := if direction = .forward then words else words.map List.reverse
      let tree := wordTree ((words.map List.length).foldl max 0 + 1) words
      pure (false, ← m.grow (tree.states + 1) tree.links)
    | none => do
      let (branch, m) ← a.build direction 0 m
      let m ← m.grow (if before = 1 then 2 else 0) (4 + Footprint.link branch)
      let (branch, m) ← b.build direction (before + 1) m
      if b.isChoice then pure (false, m)
      else pure (false, ← m.grow (if before = 0 then 2 else 0) (4 + Footprint.link branch))
  | .rep least most _ body, _, m =>
    let linked (m : Footprint) : Option Footprint := do
      let (branch, m) ← body.build direction 0 m
      m.grow 0 (Footprint.link branch)
    let optional (m : Footprint) : Option Footprint := do linked (← m.grow 1 8)
    match least, most with
    | 0, none =>
      if body.shortest.any (0 < ·) then do pure (true, ← linked (← m.grow 1 4))
      else do
        let m ← linked m
        pure (false, ← m.grow 3 16)
    | least + 1, none => do
      let m ← Footprint.copies linked (least + 1) m
      pure (true, ← m.grow 1 4)
    | 0, some 1 => do
      let m ← optional m
      pure (false, ← m.grow 1 0)
    | 0, some most => do
      let m ← m.grow (if most = 0 then 1 else 2) 0
      pure (false, ← Footprint.copies optional most m)
    | least + 1, some most =>
      if most = least + 1 then do
        let m ← Footprint.copies linked least m
        body.build direction 0 m
      else do
        let m ← Footprint.copies linked (least + 1) m
        let m ← m.grow 1 0
        pure (false, ← Footprint.copies optional (most - (least + 1)) m)

/-- The size of the whole automaton for an expression, if that fits. Unless a match must
start where reading starts, a loop over all bytes stands in front. -/
def footprint? (direction : Direction) (e : Expr) : Option Footprint := do
  let (anchored, _) := e.edge direction (if direction = .forward then .textStart else .textEnd)
  let m ← if anchored then Footprint.empty.grow 1 0 else Footprint.empty.grow 3 16
  let (branch, m) ← (Expr.capture 0 e).build direction 0 m
  m.grow 1 (Footprint.link branch)

def fits (e : Expr) : Bool :=
  (e.footprint? .backward).isSome && (e.footprint? .forward).isSome

end Expr

end LatexOrigins.Pattern
