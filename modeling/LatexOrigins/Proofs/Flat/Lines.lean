import LatexOrigins.Flat.Move
import LatexOrigins.Proofs.Markup.Span

/-!
# Reading line by line

Where nothing but comments has a meaning, what stays of a text can be said line by line.
A line stays up to where its comment starts, with its break; a line that holds nothing but
a comment goes, and so do the lines that it pauses the reading for. This is said without
a scan that passes from one line into the next.
-/

namespace LatexOrigins.Flat

open Markup

/-- How many backslashes stand just before a byte of a line. -/
def backslashesBefore (line : List UInt8) (k : Nat) : Nat :=
  spanLength (· = backslash) (line.take k).reverse

/-- A percent sign starts a comment if an even number of backslashes stands before it. -/
def StartsComment (l : List UInt8) (k : Nat) : Prop :=
  l[k]? = some percent ∧ backslashesBefore l k % 2 = 0

instance (line : List UInt8) (k : Nat) : Decidable (StartsComment line k) :=
  inferInstanceAs (Decidable (_ ∧ _))

/-- The first place in a line where a comment starts. -/
def commentStart? (line : List UInt8) : Option Nat :=
  (List.range line.length).find? (StartsComment line ·)

inductive Mode where
  | normal
  | paused
  deriving DecidableEq, Repr

/-- How many bytes of a line stay, with its break behind them, unless the whole line goes;
and how the next line is read. -/
def readLine (options : Options) (mode : Mode) (line : List UInt8) : Option Nat × Mode :=
  match mode with
  | .normal =>
    match commentStart? line with
    | none => (some line.length, .normal)
    | some start =>
      if (line.take start).all isInlineBlank then
        (none, if Text.bytes options.pauseMarker <+: line.drop start then .paused else .normal)
      else
        (some start, .normal)
  | .paused =>
    (none, if Text.bytes options.continueMarker <+: Text.trimStart line then .normal else .paused)

/-- The offsets that stay of some lines, the first of which starts at an offset. Behind
every line but the last there is a break. -/
def readLines (options : Options) (mode : Mode) (offset : Nat) : List (List UInt8) → List Nat
  | [] => []
  | line :: lines =>
    let (kept, next) := readLine options mode line
    let lineEnd := offset + line.length
    let breaks := if lines = [] then [] else [lineEnd]
    (kept.elim [] fun count => List.range' offset count ++ breaks) ++
      readLines options next (lineEnd + 1) lines

/-- The offsets that stay of a content that is read line by line. -/
def keptByLines (options : Options) (content : String) : List Nat :=
  readLines options .normal 0 ((Text.bytes content).splitOn lineBreak)

/-! ## Where comments start -/

variable {l rest : List UInt8} {b : UInt8}

theorem backslashesBefore_cons (hb : b ≠ backslash) (k : Nat) :
    backslashesBefore (b :: rest) (k + 1) = backslashesBefore rest k := by
  have hfirst : spanLength (· = backslash) [b] = 0 := by
    rw [spanLength, List.takeWhile_cons_of_neg (by simpa using hb), List.length_nil]
  rw [backslashesBefore, List.take_succ_cons, List.reverse_cons, spanLength_append, hfirst]
  split
  · next hall =>
    rw [backslashesBefore, hall, Nat.add_zero]
  · rfl

theorem backslashesBefore_pair (rest : List UInt8) (k : Nat) :
    backslashesBefore (backslash :: b :: rest) (k + 2) % 2 = backslashesBefore rest k % 2 := by
  have hpair : spanLength (· = backslash) ([b] ++ [backslash]) % 2 = 0 := by
    by_cases hb : b = backslash
    · rw [hb]
      rfl
    · rw [spanLength, List.singleton_append, List.takeWhile_cons_of_neg (by simpa using hb),
        List.length_nil]
  rw [backslashesBefore, List.take_succ_cons, List.take_succ_cons, List.reverse_cons,
    List.reverse_cons, List.append_assoc, spanLength_append]
  split
  · next hall =>
    rw [backslashesBefore, hall]
    omega
  · rfl

theorem startsComment_cons_iff (hb : b ≠ backslash) (k : Nat) :
    StartsComment (b :: rest) (k + 1) ↔ StartsComment rest k := by
  rw [StartsComment, StartsComment, List.getElem?_cons_succ, backslashesBefore_cons hb]

theorem startsComment_pair_iff (rest : List UInt8) (k : Nat) :
    StartsComment (backslash :: b :: rest) (k + 2) ↔ StartsComment rest k := by
  rw [StartsComment, StartsComment, List.getElem?_cons_succ, List.getElem?_cons_succ,
    backslashesBefore_pair]

theorem find?_range_succ {p : Nat → Bool} (hzero : p 0 = false) (n : Nat) :
    (List.range (n + 1)).find? p = ((List.range n).find? fun k => p (k + 1)).map (· + 1) := by
  rw [List.range_succ_eq_map, List.find?_cons_of_neg (by simp [hzero]), List.find?_map]
  rfl

theorem commentStart?_percent (rest : List UInt8) : commentStart? (percent :: rest) = some 0 := by
  rw [commentStart?, List.length_cons, List.range_succ_eq_map]
  exact List.find?_cons_of_pos rfl

/-- A backslash and the byte behind it are no comment, and leave open what follows. -/
theorem commentStart?_pair (b : UInt8) (rest : List UInt8) :
    commentStart? (backslash :: b :: rest) = (commentStart? rest).map (· + 2) := by
  have hfirst : ¬ StartsComment (backslash :: b :: rest) 0 := by
    intro h
    exact absurd (Option.some.inj h.1) (by decide)
  have hsecond : ¬ StartsComment (backslash :: b :: rest) 1 := by
    intro h
    have hone : backslashesBefore (backslash :: b :: rest) 1 = 1 := rfl
    have heven := h.2
    omega
  rw [commentStart?, List.length_cons, List.length_cons,
    find?_range_succ (decide_eq_false hfirst), find?_range_succ (decide_eq_false hsecond)]
  simp only [startsComment_pair_iff]
  rw [← commentStart?, Option.map_map]
  rfl

theorem commentStart?_cons (hpercent : b ≠ percent) (hback : b ≠ backslash) (rest : List UInt8) :
    commentStart? (b :: rest) = (commentStart? rest).map (· + 1) := by
  have hfirst : ¬ StartsComment (b :: rest) 0 := by
    intro h
    exact hpercent (Option.some.inj h.1)
  rw [commentStart?, List.length_cons, find?_range_succ (decide_eq_false hfirst)]
  simp only [startsComment_cons_iff hback]
  rw [← commentStart?]

theorem getElem?_commentStart {start : Nat} (h : commentStart? l = some start) :
    l[start]? = some percent := by
  have hstarts := List.find?_some h
  exact (of_decide_eq_true hstarts).1

end LatexOrigins.Flat
