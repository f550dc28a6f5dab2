import LatexOrigins.Pattern.Expr

/-!
# Pattern programs

A pattern expression is compiled to a graph of nodes. A node either takes a
character, or is passed without taking one: it branches, checks a condition or
notes the current offset in a slot. Where a node branches, the first way is
preferred, which carries the order of alternatives over into the graph.
-/

namespace LatexOrigins.Pattern

/-- A node of a program; `next`, `first` and `second` are indices of nodes. -/
inductive Node where
  | take (set : CharSet) (next : Nat)
  | split (first second : Nat)
  | look (condition : Look) (next : Nat)
  | save (slot next : Nat)
  | accept
  deriving DecidableEq, Repr

structure Fragment where
  entry : Nat
  nodes : Array Node

namespace Fragment

def push (f : Fragment) (node : Node) : Fragment := ⟨f.nodes.size, f.nodes.push node⟩

/-- A branch that prefers to enter the fragment, or if it is not greedy to skip
it to `skip`. -/
def branch (f : Fragment) (greedy : Bool) (skip : Nat) : Fragment :=
  f.push (if greedy then .split f.entry skip else .split skip f.entry)

def times (wrap : Fragment → Fragment) : Nat → Fragment → Fragment
  | 0, f => f
  | n + 1, f => times wrap n (wrap f)

/-- A body at least once, and again as often as there are matches. The branch
behind the body is made first and points to it once it is made. -/
def loop (wrap : Fragment → Fragment) (greedy : Bool) (f : Fragment) : Fragment :=
  let back := f.nodes.size
  let body := wrap (f.push .accept)
  let again := if greedy then Node.split body.entry f.entry else .split f.entry body.entry
  { body with nodes := body.nodes.setIfInBounds back again }

end Fragment

namespace Expr

def compile : Expr → Fragment → Fragment
  | .empty, f => f
  | .literal first rest, f =>
    (first :: rest).foldr (fun c f => f.push (.take (.single c) f.entry)) f
  | .char set, f => f.push (.take set f.entry)
  | .look condition, f => f.push (.look condition f.entry)
  | .capture index body, f =>
    let inner := body.compile (f.push (.save (2 * index + 1) f.entry))
    inner.push (.save (2 * index) inner.entry)
  | .seq a b, f => a.compile (b.compile f)
  | .alt a b, f =>
    let second := b.compile f
    let first := a.compile ⟨f.entry, second.nodes⟩
    first.push (.split first.entry second.entry)
  | .rep least most greedy body, f =>
    let wrap := body.compile
    match most with
    | some most =>
      let optional (g : Fragment) := (wrap g).branch greedy f.entry
      Fragment.times wrap least (Fragment.times optional (most - least) f)
    | none =>
      match least with
      | 0 =>
        if body.shortest.all (· = 0) then (Fragment.loop wrap greedy f).branch greedy f.entry
        else
          let back := f.nodes.size
          let looped := Fragment.loop wrap greedy f
          ⟨back, looped.nodes⟩
      | least + 1 => Fragment.times wrap least (Fragment.loop wrap greedy f)

end Expr

structure Program where
  entry : Nat
  nodes : Array Node
  slots : Nat

/-- Compile an expression. Its whole match has the number zero; captures have
numbers up to `captures`. -/
def Program.ofExpr (e : Expr) (captures : Nat) : Program :=
  let f := (Expr.capture 0 e).compile ⟨0, #[.accept]⟩
  ⟨f.entry, f.nodes, 2 * (captures + 1)⟩

end LatexOrigins.Pattern
