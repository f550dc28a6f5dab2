import LatexOrigins.Markup.Symbol

/-!
# Groups

Arguments of commands stand in groups: braced ones, which nest, optional ones
in brackets, and the argument of `\verb`, which ends where its first character
comes again. Groups are found at the front of a byte sequence, after blanks. A
backslash takes the byte after it along, so an escaped brace neither opens nor
closes anything.
-/

namespace LatexOrigins.Markup

structure Group where
  start : Nat
  stop : Nat
  start_pos : 0 < start
  start_le_stop : start ≤ stop
  deriving DecidableEq, Repr

namespace Group

def width (g : Group) : Nat := g.stop + 1

theorem width_pos (g : Group) : 0 < g.width := Nat.succ_pos _

def content (g : Group) (l : List UInt8) : List UInt8 := (l.drop g.start).take (g.stop - g.start)

end Group

/-- Where the delimiter stands that closes a group just opened. `depth` counts
the open groups of its kind, that one included, and `braces` the braces opened
inside brackets: while there are any, brackets mean nothing. -/
def closing (left right : UInt8) : Nat → Nat → List UInt8 → Option Nat
  | _, _, [] => none
  | depth, braces, b :: rest =>
    if b = backslash then
      match rest with
      | [] => none
      | _ :: rest => (closing left right depth braces rest).map (· + 2)
    else if b = left && (left = leftBrace || braces = 0) then
      (closing left right (depth + 1) braces rest).map (· + 1)
    else if b = right && (right = rightBrace || braces = 0) then
      if depth ≤ 1 then some 0
      else (closing left right (depth - 1) braces rest).map (· + 1)
    else if b = leftBrace then
      (closing left right depth (braces + 1) rest).map (· + 1)
    else if b = rightBrace then
      (closing left right depth (braces - 1) rest).map (· + 1)
    else
      (closing left right depth braces rest).map (· + 1)

theorem closing_lt {left right : UInt8} {depth braces n : Nat} {l : List UInt8}
    (h : closing left right depth braces l = some n) : n < l.length := by
  fun_induction closing left right depth braces l generalizing n <;>
    grind [Option.map_eq_some_iff]

def delimited (left right : UInt8) (l : List UInt8) : Option Group :=
  let blanks := spanLength isInlineBlank l
  match l.drop blanks with
  | [] => none
  | b :: rest =>
    if b = left then
      (closing left right 1 0 rest).map fun n =>
        ⟨blanks + 1, blanks + 1 + n, by omega, by omega⟩
    else
      none

theorem delimited_width_le {left right : UInt8} {l : List UInt8} {g : Group}
    (h : delimited left right l = some g) : g.width ≤ l.length := by
  unfold delimited at h
  simp only at h
  split at h
  · simp at h
  · next b rest hdrop =>
    split at h
    · obtain ⟨n, hn, rfl⟩ := Option.map_eq_some_iff.1 h
      have hlt := closing_lt hn
      have hlen := congrArg List.length hdrop
      simp only [List.length_drop, List.length_cons] at hlen
      simp only [Group.width]
      omega
    · simp at h

def braced (l : List UInt8) : Option Group := delimited leftBrace rightBrace l

/-- The optional group in brackets after blanks. Braces inside are balanced. -/
def bracketed (l : List UInt8) : Option Group := delimited leftBracket rightBracket l

/-- The argument of `\verb`: after an optional star, everything between a
character that is printable but no letter and its next occurrence on the line. -/
def verbArgument (l : List UInt8) : Option Group :=
  let lead := starWidth l
  match l.drop lead with
  | [] => none
  | delimiter :: rest =>
    if isGraphic delimiter && !isLetter delimiter then
      let n := spanLength (fun b => b ≠ delimiter && b ≠ lineBreak) rest
      if (rest.drop n).head? = some delimiter then
        some ⟨lead + 1, lead + 1 + n, by omega, by omega⟩
      else
        none
    else
      none

def optionsWidth (l : List UInt8) : Nat :=
  match _found : bracketed l with
  | none => 0
  | some g => g.width + optionsWidth (l.drop g.width)
termination_by l.length
decreasing_by
  have hle := delimited_width_le _found
  have hpos := g.width_pos
  simp only [List.length_drop]
  omega

end LatexOrigins.Markup
