import LatexOrigins.Fault
import LatexOrigins.Markup.Group
import LatexOrigins.Plain.Options
import LatexOrigins.Text.Blank
import LatexOrigins.Text.Bytes

/-!
# The plain text as blocks

Stripping markup cuts the flat source into stretches and turns each into at most
one block of plain text: a copy of flat bytes, or a replacement text that stands
for the whole stretch. Copied bytes point to themselves. The bytes of a
replacement point to consecutive flat bytes of what it replaces, and those that
are too many to the last of these.
-/

namespace LatexOrigins.Plain

open Markup

inductive Residue where
  | nothing
  | copy (start stop : Nat)
  | replace (text : String) (width : Nat)
  deriving DecidableEq, Repr

/-- What stands at the front: what is left of it and how many bytes it takes. -/
structure Construct where
  residue : Residue
  width : Nat
  deriving DecidableEq, Repr

inductive Block where
  | copy (start stop : Nat)
  | replace (text : String) (start stop : Nat)
  deriving DecidableEq, Repr

/-! ## Tables -/

def isSpecial (b : UInt8) : Bool :=
  b = backslash || b = leftBrace || b = rightBrace || b = tilde || b = dollar || b = percent

def referenceCommands : List String :=
  ["ref", "eqref", "pageref", "autoref", "cref", "Cref", "vref", "nameref"]

def citationCommands : List String :=
  ["cite", "citep", "citet", "parencite", "textcite", "autocite", "footcite", "citeauthor",
    "citeyear"]

def droppedCommands : List (String × Nat) :=
  [("label", 1), ("usepackage", 1), ("documentclass", 1), ("includegraphics", 1),
    ("bibliography", 1), ("bibliographystyle", 1), ("addbibresource", 1), ("vspace", 1),
    ("hspace", 1), ("setlength", 2), ("pagestyle", 1), ("thispagestyle", 1), ("newcommand", 2),
    ("renewcommand", 2), ("newenvironment", 3), ("todo", 1), ("url", 1)]

/-- Environments whose opening has so many braced arguments that are not prose. -/
def environmentArguments : List (String × Nat) :=
  [("tabular", 1), ("tabular*", 2), ("tabularx", 2), ("array", 1), ("minipage", 1)]

def spells (word : List UInt8) (text : String) : Bool := Text.bytes text == word

def lookUp (table : List (String × Nat)) (word : List UInt8) : Option Nat :=
  (table.find? fun entry => spells word entry.1).map (·.2)

/-! ## Constructs -/

/-- The width of up to `count` braced arguments, each after its options. Options
without a braced argument behind them do not count. -/
def argumentsWidth : Nat → List UInt8 → Nat
  | 0, _ => 0
  | count + 1, l =>
    let options := optionsWidth l
    match braced (l.drop options) with
    | none => 0
    | some g =>
      let width := options + g.width
      width + argumentsWidth count (l.drop width)

def starredArgumentsWidth (count : Nat) (l : List UInt8) : Nat :=
  let lead := starWidth l
  lead + argumentsWidth count (l.drop lead)

/-- A formula that an opening of width `lead` starts. Without its closing only
the opening goes. -/
def formula (options : Options) (lead : Nat) (close : List UInt8) (l : List UInt8) : Construct :=
  match unescapedIndexOf? close (l.drop lead) with
  | some n =>
    let width := lead + n + close.length
    ⟨.replace options.mathPlaceholder width, width⟩
  | none => ⟨.nothing, lead⟩

def closingTag (name : List UInt8) : List UInt8 :=
  Text.bytes "\\end\x7b" ++ name ++ [rightBrace]

/-- Where the environment ends whose content starts at `lead`: behind its closing,
or at the end of the text. -/
def environmentWidth (name : List UInt8) (lead : Nat) (l : List UInt8) : Nat :=
  match indexOf? (closingTag name) (l.drop lead) with
  | some n => lead + n + (closingTag name).length
  | none => lead + (l.drop lead).length

/-- The opening of an environment, after `name` bytes for the command itself. -/
def environment (options : Options) (name : Nat) (l : List UInt8) : Construct :=
  match braced (l.drop name) with
  | none => ⟨.nothing, name⟩
  | some g =>
    let label := Text.trim (g.content (l.drop name))
    let lead := name + g.width
    if options.skipEnvironments.any (spells label) then
      ⟨.nothing, environmentWidth label lead l⟩
    else if options.mathEnvironments.any (spells label) then
      let width := environmentWidth label lead l
      ⟨.replace options.mathPlaceholder width, width⟩
    else
      let lead := lead + optionsWidth (l.drop lead)
      let count := (lookUp environmentArguments label).getD 0
      ⟨.nothing, lead + starredArgumentsWidth count (l.drop lead)⟩

/-- A command that a text replaces together with its argument. Without the
argument it goes. -/
def placeholder (text : String) (name : Nat) (l : List UInt8) : Construct :=
  let behind := l.drop name
  let width := starredArgumentsWidth 1 behind
  if starWidth behind < width then ⟨.replace text (name + width), name + width⟩
  else ⟨.nothing, name + width⟩

def withGroup (name : Nat) (group : Option Group) : Nat :=
  match group with
  | some g => name + g.width
  | none => name

def controlWord (options : Options) (word : List UInt8) (name : Nat) (l : List UInt8) :
    Construct :=
  let behind := l.drop name
  let is (text : String) : Bool := spells word text
  if is "begin" then environment options name l
  else if is "end" then ⟨.nothing, withGroup name (braced behind)⟩
  else if is "ldots" || is "dots" then ⟨.replace "..." name, name⟩
  else if is "LaTeX" then ⟨.replace "LaTeX" name, name⟩
  else if is "TeX" then ⟨.replace "TeX" name, name⟩
  else if is "verb" then
    match verbArgument behind with
    | some g => ⟨.copy (name + g.start) (name + g.stop), name + g.width⟩
    | none => ⟨.nothing, name⟩
  else if is "item" then ⟨.nothing, withGroup name (bracketed behind)⟩
  else if referenceCommands.any is then placeholder options.referencePlaceholder name l
  else if citationCommands.any is then placeholder options.citationPlaceholder name l
  else
    match lookUp droppedCommands word with
    | some count => ⟨.nothing, name + starredArgumentsWidth count behind⟩
    | none => ⟨.nothing, name + starWidth behind⟩

/-- The symbols that a backslash in front makes stand for themselves. -/
def escapable : List UInt8 :=
  [percent, 0x26, dollar, 0x23, 0x5f, leftBrace, rightBrace]

/-- The symbols that a backslash in front makes a space. -/
def spacing : List UInt8 := [0x2c, 0x3b, 0x20, lineBreak]

/-- A control symbol: a backslash and one character that is no letter. -/
def controlSymbol (options : Options) (rest l : List UInt8) : Construct :=
  match rest with
  | [] => ⟨.nothing, 1⟩
  | b :: _ =>
    if b = backslash then ⟨.replace " " 2, withGroup 2 (bracketed (l.drop 2))⟩
    else if escapable.contains b then ⟨.copy 1 2, 2⟩
    else if b = 0x28 then formula options 2 [backslash, 0x29] l
    else if b = leftBracket then formula options 2 [backslash, rightBracket] l
    else if spacing.contains b then ⟨.replace " " 2, 2⟩
    else ⟨.nothing, 1 + charWidth rest⟩

def construct (options : Options) (b : UInt8) (rest l : List UInt8) : Construct :=
  if b = backslash then
    let word := rest.take (wordWidth rest)
    if word = [] then controlSymbol options rest l
    else controlWord options word (1 + word.length) l
  else if b = tilde then ⟨.replace " " 1, 1⟩
  else if b = dollar then
    if rest.head? = some dollar then formula options 2 [dollar, dollar] l
    else formula options 1 [dollar] l
  else if b = percent then ⟨.nothing, (restOfLine l).length⟩
  else ⟨.nothing, 1⟩

/-- What stands at the front: plain text up to the next special byte, or what
the special byte there starts. -/
def front (options : Options) (b : UInt8) (rest : List UInt8) : Construct :=
  let l := b :: rest
  if isSpecial b then construct options b rest l
  else
    let width := spanLength (fun c => !isSpecial c) l
    ⟨.copy 0 width, width⟩

/-! ## Progress -/

theorem formula_width_pos {options : Options} {lead : Nat} {close l : List UInt8}
    (h : 0 < lead) : 0 < (formula options lead close l).width := by
  unfold formula
  split <;> simp only <;> omega

theorem withGroup_pos {name : Nat} {group : Option Group} (h : 0 < name) :
    0 < withGroup name group := by
  unfold withGroup
  split <;> omega

theorem environment_width_pos {options : Options} {name : Nat} {l : List UInt8}
    (h : 0 < name) : 0 < (environment options name l).width := by
  unfold environment environmentWidth
  split
  · exact h
  · simp only
    split
    · split <;> simp only <;> omega
    · split
      · split <;> simp only <;> omega
      · simp only; omega

theorem placeholder_width_pos {text : String} {name : Nat} {l : List UInt8}
    (h : 0 < name) : 0 < (placeholder text name l).width := by
  unfold placeholder
  simp only
  split <;> simp only <;> omega

theorem ite_width_pos {c : Prop} [Decidable c] {a b : Construct} (ha : 0 < a.width)
    (hb : 0 < b.width) : 0 < (if c then a else b).width := by
  by_cases h : c
  · rwa [if_pos h]
  · rwa [if_neg h]

theorem controlWord_width_pos {options : Options} {word : List UInt8} {name : Nat}
    {l : List UInt8} (h : 0 < name) : 0 < (controlWord options word name l).width := by
  unfold controlWord
  simp only
  refine ite_width_pos (environment_width_pos h) (ite_width_pos (withGroup_pos h) ?_)
  refine ite_width_pos h (ite_width_pos h (ite_width_pos h (ite_width_pos ?_ ?_)))
  · split
    · exact Nat.add_pos_left h _
    · exact h
  · refine ite_width_pos (withGroup_pos h) ?_
    refine ite_width_pos (placeholder_width_pos h) (ite_width_pos (placeholder_width_pos h) ?_)
    split
    · exact Nat.add_pos_left h _
    · exact Nat.add_pos_left h _

theorem controlSymbol_width_pos (options : Options) (rest l : List UInt8) :
    0 < (controlSymbol options rest l).width := by
  unfold controlSymbol
  repeat' split
  all_goals grind [formula_width_pos, withGroup_pos]

theorem front_width_pos (options : Options) (b : UInt8) (rest : List UInt8) :
    0 < (front options b rest).width := by
  unfold front
  simp only
  split
  · unfold construct
    split
    · simp only
      split
      · exact controlSymbol_width_pos _ _ _
      · exact controlWord_width_pos (by omega)
    · split
      · simp
      · split
        · split <;> exact formula_width_pos (by omega)
        · split
          · next hb => subst hb; simp [restOfLine, percent, lineBreak]
          · simp
  · next h => simp [spanLength, h]

/-! ## Blocks -/

def Residue.blocksAt (offset : Nat) : Residue → List Block
  | .nothing => []
  | .copy start stop => [.copy (offset + start) (offset + stop)]
  | .replace text width => [.replace text offset (offset + width)]

def blocksFrom (options : Options) (offset : Nat) : List UInt8 → List Block
  | [] => []
  | b :: rest =>
    let c := front options b rest
    c.residue.blocksAt offset ++
      blocksFrom options (offset + c.width) ((b :: rest).drop c.width)
termination_by l => l.length
decreasing_by
  have h := front_width_pos options b rest
  simp only [List.length_drop, List.length_cons]
  omega

def blocks (options : Options) (flat : String) : List Block :=
  blocksFrom options 0 (Text.bytes flat)

namespace Block

def text (flat : String) : Block → Except Fault String
  | .copy start stop =>
    match Text.slice? flat start stop with
    | some piece => .ok piece
    | none => .error .brokenSlice
  | .replace piece _ _ => .ok piece

def map : Block → List Nat
  | .copy start stop => List.range' start (stop - start)
  | .replace piece start stop =>
    (List.range piece.utf8ByteSize).map fun k => min (start + k) (stop - 1)

end Block

/-- The plain text of a flat source with the flat offset of each of its bytes. -/
def strip (options : Options) (flat : String) : Except Fault (String × Array Nat) := do
  let parts := blocks options flat
  let texts ← parts.mapM (Block.text flat)
  pure (String.join texts, (parts.flatMap Block.map).toArray)

end LatexOrigins.Plain
