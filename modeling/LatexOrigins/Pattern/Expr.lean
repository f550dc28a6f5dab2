import LatexOrigins.Pattern.CharClass

/-!
# Pattern expressions

What a pattern says, independent of how it is written. Alternatives and
repetitions are ordered: of several ways to match, the first one counts.
-/

namespace LatexOrigins.Pattern

inductive Look where
  | textStart
  | textEnd
  /-- The start of a line; with `crlf`, lines may also end in a carriage return. -/
  | lineStart (crlf : Bool)
  | lineEnd (crlf : Bool)
  | boundary (ascii : Bool)
  | noBoundary (ascii : Bool)
  | wordStart (ascii : Bool)
  | wordEnd (ascii : Bool)
  | noWordBefore (ascii : Bool)
  | noWordAfter (ascii : Bool)
  deriving DecidableEq, Repr

namespace Look

def inWord (ascii : Bool) : Option Char → Bool
  | none => false
  | some c => if ascii then asciiWordChars.contains c else isWord c

def holds (before after : Option Char) : Look → Bool
  | .textStart => before.isNone
  | .textEnd => after.isNone
  | .lineStart false => before.isNone || before = some '\n'
  | .lineEnd false => after.isNone || after = some '\n'
  | .lineStart true =>
    before.isNone || before = some '\n' || (before = some '\r' && after ≠ some '\n')
  | .lineEnd true =>
    after.isNone || after = some '\r' || (after = some '\n' && before ≠ some '\r')
  | .boundary ascii => inWord ascii before != inWord ascii after
  | .noBoundary ascii => inWord ascii before == inWord ascii after
  | .wordStart ascii => !inWord ascii before && inWord ascii after
  | .wordEnd ascii => inWord ascii before && !inWord ascii after
  | .noWordBefore ascii => !inWord ascii before
  | .noWordAfter ascii => !inWord ascii after

end Look

inductive Direction where
  | forward
  | backward
  deriving DecidableEq, Repr

inductive Expr where
  | empty
  | literal (first : Char) (rest : List Char)
  | char (set : CharSet)
  | look (condition : Look)
  | capture (index : Nat) (body : Expr)
  | seq (a b : Expr)
  | alt (a b : Expr)
  | rep (least : Nat) (most : Option Nat) (greedy : Bool) (body : Expr)
  deriving DecidableEq, Repr

namespace Expr

/-- The length of the shortest match, where conditions count as met; none if some
set that takes part is empty. -/
def shortest : Expr → Option Nat
  | .empty => some 0
  | .literal _ rest => some (rest.length + 1)
  | .char set => if set.isEmpty then none else some 1
  | .look _ => some 0
  | .capture _ body => body.shortest
  | .seq a b => do pure ((← a.shortest) + (← b.shortest))
  | .alt a b => do pure (min (← a.shortest) (← b.shortest))
  | .rep least _ _ body => body.shortest.map (least * ·)

def onlyEmpty : Expr → Bool
  | .empty => true
  | .literal _ _ => false
  | .char _ => false
  | .look _ => true
  | .capture _ body => body.onlyEmpty
  | .seq a b => a.onlyEmpty && b.onlyEmpty
  | .alt a b => a.onlyEmpty && b.onlyEmpty
  | .rep _ most _ body => most.isSome && body.onlyEmpty

/-- Whether a condition must hold where the reading of a match starts, and whether only
the empty text can match, so that what is read next starts there too. -/
def edge (direction : Direction) (condition : Look) : Expr → Bool × Bool
  | .empty => (false, true)
  | .literal _ _ => (false, false)
  | .char _ => (false, false)
  | .look other => (other = condition, true)
  | .capture _ body => body.edge direction condition
  | .seq a b =>
    let (first, second) :=
      match direction with
      | .forward => (a.edge direction condition, b.edge direction condition)
      | .backward => (b.edge direction condition, a.edge direction condition)
    (first.1 || (first.2 && second.1), first.2 && second.2)
  | .alt a b =>
    let first := a.edge direction condition
    let second := b.edge direction condition
    (first.1 && second.1, first.2 && second.2)
  | .rep least most _ body =>
    let inner := body.edge direction condition
    (0 < least && inner.1, most.isSome && inner.2)

end Expr

end LatexOrigins.Pattern
