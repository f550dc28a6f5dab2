import LatexOrigins.Flat.Options
import LatexOrigins.Markup.Group
import LatexOrigins.Text.Blank
import LatexOrigins.Text.Bytes

/-!
# How the content of one file is flattened

The content of a file determines a list of moves: ranges to keep, comments, and
inclusions to follow. The moves do not depend on any other file. A step looks at
the bytes from the current offset on and, for comments, at the bytes before it;
it measures what stands there, and the scan goes on behind. The argument that an
unwrapped command keeps is scanned like any other content, up to its end.
-/

namespace LatexOrigins

open Markup

inductive Move where
  | keep (start stop : Nat)
  /-- Pass over the comment at an offset. If it stands alone on its line, so many
  bytes of indentation before it are taken back. -/
  | comment (start : Nat) (indentation : Option Nat)
  | follow (start stop : Nat)
  deriving DecidableEq, Repr

inductive Step where
  | keep (width : Nat)
  | comment (indentation : Option Nat) (width : Nat)
  | follow (start stop width : Nat)
  | unwrap (kept : Option (Nat × Nat)) (width : Nat)
  deriving DecidableEq, Repr

namespace Step

def width : Step → Nat
  | .keep w => w
  | .comment _ w => w
  | .follow _ _ w => w
  | .unwrap _ w => w

def kept : Step → Option (Nat × Nat)
  | .unwrap bounds _ => bounds
  | _ => none

/-- The moves of a step at an offset, those of an argument that stays apart. -/
def movesAt (offset : Nat) : Step → List Move
  | .keep w => [.keep offset (offset + w)]
  | .comment indentation _ => [.comment offset indentation]
  | .follow start stop _ => [.follow (offset + start) (offset + stop)]
  | .unwrap _ _ => []

end Step

namespace Flat

/-- Bytes from the start of a line on up to and with the line that ends a
paused region. -/
def pausedWidth (marker : List UInt8) (l : List UInt8) : Nat :=
  if _nonempty : l = [] then 0
  else
    let line := restOfLine l
    let whole := min (line.length + 1) l.length
    if marker.isPrefixOf (Text.trimStart line) then whole
    else whole + pausedWidth marker (l.drop whole)
termination_by l.length
decreasing_by
  have h := List.length_pos_iff.2 _nonempty
  simp only [List.length_drop]
  omega

/-- The comment at the front. `before` holds the bytes before it, last first. -/
def commentStep (options : Options) (before l : List UInt8) : Step :=
  let indentation := restOfLine before
  let line := restOfLine l
  if indentation.all isInlineBlank then
    let whole := min (line.length + 1) l.length
    if (Text.bytes options.pauseMarker).isPrefixOf line then
      .comment (some indentation.length)
        (whole + pausedWidth (Text.bytes options.continueMarker) (l.drop whole))
    else
      .comment (some indentation.length) whole
  else
    .comment none line.length

/-- Width of the options and braced arguments after an unwrapped command, and the
bounds of the content of the argument to keep. Arguments count from `index`; the
first that is missing ends the command. -/
def ruleArguments (keep : Option Nat) : Nat → Nat → List UInt8 → Option (Nat × Nat) × Nat
  | _, 0, _ => (none, 0)
  | index, remaining + 1, l =>
    let options := optionsWidth l
    match braced (l.drop options) with
    | none => (none, options)
    | some g =>
      let width := options + g.width
      let rest := ruleArguments keep (index + 1) remaining (l.drop width)
      let kept :=
        if keep = some index then some (options + g.start, options + g.stop)
        else rest.1.map fun bounds => (width + bounds.1, width + bounds.2)
      (kept, width + rest.2)

/-- The unwrapping of a command whose name takes up `name` bytes with its
backslash. -/
def ruleStep (rule : CommandRule) (name : Nat) (l : List UInt8) : Step :=
  let lead := name + starWidth (l.drop name)
  let found := ruleArguments rule.keep 1 rule.arguments (l.drop lead)
  .unwrap (found.1.map fun bounds => (lead + bounds.1, lead + bounds.2)) (lead + found.2)

def followStep (name : Nat) (g : Group) (l : List UInt8) : Step :=
  let inner := g.content (l.drop name)
  let blanks := inner.length - (Text.trimStart inner).length
  let start := name + g.start + blanks
  .follow start (start + (Text.trim inner).length) (name + g.width)

def controlStep (options : Options) (l rest : List UInt8) : Step :=
  let word := rest.take (wordWidth rest)
  let name := 1 + word.length
  let isWord (text : String) : Bool := Text.bytes text == word
  if word = [] then .keep (1 + charWidth rest)
  else if isWord "verb" then
    match verbArgument (l.drop name) with
    | some g => .keep (name + g.width)
    | none => .keep name
  else
    match options.commandRules.find? (fun rule => isWord rule.name) with
    | some rule => ruleStep rule name l
    | none =>
      if options.includeCommands.any isWord then
        match braced (l.drop name) with
        | some g => followStep name g l
        | none => .keep name
      else
        .keep name

def isPlain (b : UInt8) : Bool := b ≠ backslash && b ≠ percent

/-- What stands at the front of the bytes that are left. Of these `room` bytes
belong to the range that is scanned, and a comment does not reach past it. -/
def step (options : Options) (before : List UInt8) (room : Nat) (l : List UInt8) : Step :=
  match l with
  | [] => .keep 1
  | b :: rest =>
    if b = percent then
      match commentStep options before l with
      | .comment indentation width => .comment indentation (min width room)
      | other => other
    else if b = backslash then controlStep options l rest
    else .keep (min (spanLength isPlain l) room)

/-! ## Progress -/

theorem restOfLine_percent_length (rest : List UInt8) :
    0 < (restOfLine (percent :: rest)).length := by
  simp [restOfLine, percent, lineBreak]

theorem commentStep_width_pos (options : Options) (before rest : List UInt8) :
    0 < (commentStep options before (percent :: rest)).width := by
  have h := restOfLine_percent_length rest
  unfold commentStep
  simp only
  split
  · split <;> simp only [Step.width, List.length_cons] <;> omega
  · exact h

theorem controlStep_width_pos (options : Options) (l rest : List UInt8) :
    0 < (controlStep options l rest).width := by
  unfold controlStep
  simp only
  split
  · simp only [Step.width]; omega
  · split
    · split <;> simp only [Step.width] <;> omega
    · split
      · simp only [ruleStep, Step.width]; omega
      · split
        · split <;> simp only [followStep, Step.width] <;> omega
        · simp only [Step.width]; omega

theorem step_width_pos (options : Options) (before : List UInt8) {room : Nat} {l : List UInt8}
    (hroom : room ≠ 0) : 0 < (step options before room l).width := by
  unfold step
  split
  · simp [Step.width]
  · next b rest =>
    split
    · next hb =>
      subst hb
      have h := commentStep_width_pos options before rest
      split
      · next heq =>
        rw [heq] at h
        simp only [Step.width] at h ⊢
        omega
      · exact h
    · split
      · exact controlStep_width_pos options _ rest
      · next hp hs =>
        have h : 0 < spanLength isPlain (b :: rest) := by
          simp [spanLength, isPlain, hp, hs]
        simp only [Step.width]
        omega

theorem step_kept_pos {options : Options} {before : List UInt8} {room : Nat} {l : List UInt8}
    {bounds : Nat × Nat} (h : (step options before room l).kept = some bounds) : 0 < bounds.1 := by
  unfold step at h
  split at h
  · simp [Step.kept] at h
  · next b rest =>
    split at h
    · have hc : (commentStep options before (b :: rest)).kept = none := by
        unfold commentStep
        simp only
        split
        · split <;> rfl
        · rfl
      split at h
      · simp [Step.kept] at h
      · simp [hc] at h
    · split at h
      · unfold controlStep at h
        simp only at h
        split at h
        · simp [Step.kept] at h
        · split at h
          · split at h <;> simp [Step.kept] at h
          · split at h
            · simp only [ruleStep, Step.kept, Option.map_eq_some_iff] at h
              obtain ⟨_, _, rfl⟩ := h
              simp only
              omega
            · split at h
              · split at h <;> simp [followStep, Step.kept] at h
              · simp [Step.kept] at h
      · simp [Step.kept] at h

/-- The moves for the next `room` bytes of a content, of which `l` is what is
left at `offset` and `before` what came before, last first. -/
def movesFrom (options : Options) (offset : Nat) (before l : List UInt8) (room : Nat) :
    List Move :=
  if _done : room = 0 ∨ l = [] then []
  else
    let s := step options before room l
    let inner :=
      match _stays : s.kept with
      | none => []
      | some bounds =>
        movesFrom options (offset + bounds.1) ((l.take bounds.1).reverse ++ before)
          (l.drop bounds.1) (bounds.2 - bounds.1)
    s.movesAt offset ++ inner ++
      movesFrom options (offset + s.width) ((l.take s.width).reverse ++ before)
        (l.drop s.width) (room - s.width)
termination_by l.length
decreasing_by
  · have hl := List.length_pos_iff.2 (not_or.1 _done).2
    have hb := step_kept_pos _stays
    simp only [List.length_drop]
    omega
  · have hl := List.length_pos_iff.2 (not_or.1 _done).2
    have hw := step_width_pos options before (l := l) (not_or.1 _done).1
    simp only [List.length_drop]
    omega

def moves (options : Options) (content : String) : List Move :=
  let bytes := Text.bytes content
  movesFrom options 0 [] bytes bytes.length

end Flat

end LatexOrigins
