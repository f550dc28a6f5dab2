import LatexOrigins.Text.Word

/-!
# Scattered positions as a span on one line

A report can point at one line only. Of scattered positions the last line that
any of them lies on is kept, unless a single position lies there and several on
the line before: a lone trailing character is usually the line break that ended
the interesting part.
-/

namespace LatexOrigins

def onLine (positions : List Position) (line : Nat) : List Position :=
  positions.filter (·.line = line)

def lastLine : List Position → Nat
  | [] => 0
  | p :: rest => Nat.max p.line (lastLine rest)

def reportedLine (positions : List Position) : List Position :=
  let last := lastLine positions
  let chosen := onLine positions last
  if chosen.length = 1 then
    match last with
    | 0 => chosen
    | before + 1 =>
      let previous := onLine positions before
      if previous.length ≤ 1 then chosen else previous
  else
    chosen

/-- The first and the last position on the line that is kept. -/
def lineEnds (positions : List Position) : Option (Position × Position) :=
  match reportedLine positions with
  | [] => none
  | p :: rest => some (rest.foldl Position.min p, rest.foldl Position.max p)

/-- The span of positions of a text, which words can count. -/
def lineSpan (positions : List Position) : Option (Position × Position) :=
  (lineEnds positions).map fun (first, last) => (first, last.next)

/-- The span of any positions. -/
def spanOf (overflow : Overflow) (positions : List Position) :
    Except Fault (Option (Position × Position)) :=
  match lineEnds positions with
  | none => .ok none
  | some (first, last) => do pure (some (first, ← last.step overflow))

end LatexOrigins
