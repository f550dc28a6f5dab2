import LatexOrigins.Pattern.Program

/-!
# Searching

A search runs all ways through a program side by side, one character at a time.
The ways are kept in order of preference, and of two that reach the same node
the preferred one stays. A way that is accepted drops those behind it, while
those before it go on; so the match that a search ends with is the preferred one
among those that start first.
-/

namespace LatexOrigins.Pattern

abbrev Slots := Array (Option Nat)

/-- A way through a program, up to a node that takes a character or accepts. -/
structure Thread where
  node : Nat
  slots : Slots

/-- The ways at one place of the text, the preferred ones first, and the nodes
they have come by. -/
structure Frontier where
  visited : Array Bool
  threads : Array Thread

/-- A place in a text: the character before it, its offset and what follows. -/
structure Cursor where
  before : Option Char
  offset : Nat
  rest : List Char

namespace Cursor

def start (text : String) : Cursor := ⟨none, 0, text.toList⟩

def advance (c : Char) (rest : List Char) (offset : Nat) : Cursor :=
  ⟨some c, offset + c.utf8Size, rest⟩

def seekFrom (target : Nat) (before : Option Char) (offset : Nat) : List Char → Cursor
  | [] => ⟨before, offset, []⟩
  | c :: rest =>
    if target ≤ offset then ⟨before, offset, c :: rest⟩
    else seekFrom target (some c) (offset + c.utf8Size) rest

def seek (cursor : Cursor) (target : Nat) : Cursor :=
  seekFrom target cursor.before cursor.offset cursor.rest

end Cursor

namespace Frontier

def empty (size : Nat) : Frontier := ⟨Array.replicate size false, #[]⟩

/-- Follow ways from their nodes on to the nodes that take a character, the first
way first. No node is passed twice at one place, and each adds at most two ways, so
that `count` bounds the steps. -/
def explore (nodes : Array Node) (before after : Option Char) (offset : Nat) :
    Nat → List Thread → Frontier → Frontier
  | 0, _, f => f
  | _ + 1, [], f => f
  | count + 1, ⟨n, slots⟩ :: others, f =>
    if f.visited.getD n true then explore nodes before after offset count others f
    else
      let f := { f with visited := f.visited.setIfInBounds n true }
      match nodes[n]? with
      | some (.split first second) =>
        explore nodes before after offset count (⟨first, slots⟩ :: ⟨second, slots⟩ :: others) f
      | some (.look condition next) =>
        explore nodes before after offset count
          (if condition.holds before after then ⟨next, slots⟩ :: others else others) f
      | some (.save slot next) =>
        let slots := slots.setIfInBounds slot (some offset)
        explore nodes before after offset count (⟨next, slots⟩ :: others) f
      | some (.take _ _) | some .accept =>
        explore nodes before after offset count others
          { f with threads := f.threads.push ⟨n, slots⟩ }
      | none => explore nodes before after offset count others f

end Frontier

namespace Program

def enter (p : Program) (before : Option Char) (offset : Nat) (rest : List Char)
    (f : Frontier) : Frontier :=
  f.explore p.nodes before rest.head? offset (2 * p.nodes.size + 2)
    [⟨p.entry, Array.replicate p.slots none⟩]

/-- Let each way take the next character, in order. A way that accepts is the
best so far and ends the round. -/
def stepAll (p : Program) (offset : Nat) (rest : List Char) (best : Option Slots)
    (next : Frontier) : List Thread → Option Slots × Frontier
  | [] => (best, next)
  | t :: others =>
    match p.nodes[t.node]? with
    | some .accept => (some t.slots, next)
    | some (.take set target) =>
      match rest with
      | [] => stepAll p offset rest best next others
      | c :: after =>
        let next :=
          if set.contains c then
            next.explore p.nodes (some c) after.head? (offset + c.utf8Size)
              (2 * p.nodes.size + 2) [⟨target, t.slots⟩]
          else next
        stepAll p offset rest best next others
    | _ => stepAll p offset rest best next others

def searchFrom (p : Program) (best : Option Slots) (f : Frontier) (before : Option Char)
    (offset : Nat) (rest : List Char) : Option Slots :=
  let f := if best.isNone then p.enter before offset rest f else f
  let (best, next) :=
    p.stepAll offset rest best (Frontier.empty p.nodes.size) f.threads.toList
  match rest with
  | [] => best
  | c :: after =>
    if best.isSome && next.threads.isEmpty then best
    else searchFrom p best next (some c) (offset + c.utf8Size) after

def search (p : Program) (cursor : Cursor) : Option Slots :=
  p.searchFrom none (Frontier.empty p.nodes.size) cursor.before cursor.offset cursor.rest

def range? (slots : Slots) (index : Nat) : Option (Nat × Nat) :=
  match slots.getD (2 * index) none, slots.getD (2 * index + 1) none with
  | some start, some stop => some (start, stop)
  | _, _ => none

/-- The first match from a place on that is not the empty one at the end of the
match before. -/
def searchAfter (p : Program) (last : Option Nat) (cursor : Cursor) : Option Slots :=
  match p.search cursor with
  | none => none
  | some slots =>
    match range? slots 0 with
    | some (start, stop) =>
      if start = stop ∧ last = some stop then
        match cursor.rest with
        | [] => none
        | c :: rest => p.search (Cursor.advance c rest cursor.offset)
      else
        some slots
    | none => none

/-- All matches from a place on, each behind the one before it; at most `count`. -/
def searchAll (p : Program) (last : Option Nat) (cursor : Cursor) : Nat → List Slots
  | 0 => []
  | count + 1 =>
    match p.searchAfter last cursor with
    | none => []
    | some slots =>
      match range? slots 0 with
      | none => []
      | some (_, stop) => slots :: searchAll p (some stop) (cursor.seek stop) count

end Program

end LatexOrigins.Pattern
