import LatexOrigins.Proofs.Flat.Bare
import LatexOrigins.Proofs.Flat.Lines

/-!
# Text before a comment

The scan jumps from one backslash or percent sign to the next, and its steps end where they
like, also behind the break of a line. Still, from every offset on that it can come to, it
emits what stands there up to the comment of the line, or the line with its break if there is
none, as long as the comment does not stand alone.
-/

namespace LatexOrigins.Flat

open Markup

variable {options : Options} {bytes l rest : List UInt8} {offset n : Nat} {b : UInt8}

/-! ## Lines of a text -/

theorem restOfLine_drop (h : n ≤ (restOfLine l).length) :
    restOfLine (l.drop n) = (restOfLine l).drop n :=
  takeWhile_drop h

theorem take_restOfLine (h : n ≤ (restOfLine l).length) : (restOfLine l).take n = l.take n := by
  have hprefix : restOfLine l <+: l := List.takeWhile_prefix _
  rw [List.prefix_iff_eq_take.1 hprefix, List.take_take, Nat.min_eq_left h]

theorem lineWidth_drop (h : n ≤ (restOfLine l).length) :
    lineWidth (l.drop n) = lineWidth l - n := by
  rw [lineWidth, lineWidth, restOfLine_drop h, List.length_drop, List.length_drop]
  omega

theorem restOfLine_eq_cons (h : restOfLine (bytes.drop offset) = b :: rest) :
    bytes[offset]? = some b ∧ restOfLine (bytes.drop (offset + 1)) = rest ∧
      lineWidth (bytes.drop offset) = lineWidth (bytes.drop (offset + 1)) + 1 := by
  have hone : 1 ≤ (restOfLine (bytes.drop offset)).length := by
    rw [h]
    exact Nat.succ_le_succ (Nat.zero_le _)
  have hfront : b :: rest <+: bytes.drop offset := by
    rw [← h]
    exact List.takeWhile_prefix _
  refine ⟨?_, ?_, ?_⟩
  · have hfirst := List.prefix_iff_getElem?.1 hfront 0 (Nat.zero_lt_succ _)
    rwa [List.getElem?_drop] at hfirst
  · rw [← List.drop_drop, restOfLine_drop hone, h]
    rfl
  · have hwidth := restOfLine_le_lineWidth (bytes.drop offset)
    rw [← List.drop_drop, lineWidth_drop hone]
    omega

theorem restOfLine_eq_nil (h : restOfLine (bytes.drop offset) = []) :
    bytes[offset]? = some lineBreak ∧ lineWidth (bytes.drop offset) = 1 ∨
      bytes.length ≤ offset ∧ lineWidth (bytes.drop offset) = 0 := by
  by_cases hlt : offset < bytes.length
  · have hempty : (restOfLine (bytes.drop offset)).length = 0 := by rw [h, List.length_nil]
    have hbreak := lineBreak_of_restOfLine_lt (l := bytes.drop offset) (by
      rw [hempty, List.length_drop]
      omega)
    rw [hempty, List.getElem?_drop] at hbreak
    refine Or.inl ⟨hbreak, ?_⟩
    rw [lineWidth, hempty, List.length_drop]
    omega
  · have hend := Nat.not_lt.1 hlt
    rw [List.drop_eq_nil_of_le hend]
    exact Or.inr ⟨hend, rfl⟩

theorem ne_lineBreak_of_isInlineBlank (h : isInlineBlank b = true) : b ≠ lineBreak := by
  rintro rfl
  exact absurd h (by decide)

theorem restOfLine_of_blank (h : ((bytes.drop offset).take n).all isInlineBlank = true) :
    restOfLine (bytes.drop offset) =
      (bytes.drop offset).take n ++ restOfLine (bytes.drop (offset + n)) := by
  have hline : ∀ c ∈ (bytes.drop offset).take n, c ≠ lineBreak := by
    intro c hc
    exact ne_lineBreak_of_isInlineBlank (List.all_eq_true.1 h c hc)
  calc restOfLine (bytes.drop offset)
      = restOfLine ((bytes.drop offset).take n ++ bytes.drop (offset + n)) := by
        rw [← List.drop_drop, List.take_append_drop]
    _ = (bytes.drop offset).take n ++ restOfLine (bytes.drop (offset + n)) :=
        List.takeWhile_append_of_pos fun c hc => decide_eq_true (hline c hc)

theorem blank_of_le_indentAt (hn : n ≤ (bytes.drop offset).length)
    (h : n ≤ indentAt bytes (offset + n)) :
    ((bytes.drop offset).take n).all isInlineBlank = true := by
  by_cases hindented : Indented bytes (offset + n)
  · rw [indentAt_of_indented hindented] at h
    have hlength : ((bytes.drop offset).take n).reverse.length = n := by
      rw [List.length_reverse, List.length_take_of_le hn]
    have hfront : ((bytes.drop offset).take n).reverse <+: (bytes.take (offset + n)).reverse := by
      rw [← reverse_take_add]
      exact List.prefix_append _ _
    have hinside : ((bytes.drop offset).take n).reverse <+:
        restOfLine (bytes.take (offset + n)).reverse := by
      apply List.prefix_of_prefix_length_le hfront (List.takeWhile_prefix _)
      rwa [hlength]
    apply List.all_eq_true.2
    intro c hc
    exact List.all_eq_true.1 hindented c (hinside.subset (List.mem_reverse.2 hc))
  · rw [indentAt_of_not_indented hindented, Nat.le_zero] at h
    rw [h]
    rfl

/-! ## Up to a comment -/

/-- How far the line at the front goes on before a comment, or with its break if it has
none. -/
def textWidth (l : List UInt8) : Nat := (commentStart? (restOfLine l)).getD (lineWidth l)

theorem commentStart?_blanks {blanks : List UInt8} (h : blanks.all isInlineBlank = true) :
    commentStart? (blanks ++ percent :: rest) = some blanks.length := by
  induction blanks with
  | nil => exact commentStart?_percent rest
  | cons b blanks ih =>
      obtain ⟨hb, hblanks⟩ : isInlineBlank b = true ∧ blanks.all isInlineBlank = true := by
        simpa using h
      obtain ⟨hback, hpercent⟩ := isPlain_iff.1 (isPlain_of_test rfl rfl b hb)
      rw [List.cons_append, commentStart?_cons hpercent hback, ih hblanks]
      rfl

namespace Bare

/-- If all of a run is taken back, the run is the indentation of a comment. -/
theorem commentStart?_of_takenFrom (hbare : Bare options bytes)
    (hpos : 0 < spanLength isPlain (bytes.drop offset))
    (h : spanLength isPlain (bytes.drop offset) ≤
      takenFrom options bytes (offset + spanLength isPlain (bytes.drop offset))) :
    commentStart? (restOfLine (bytes.drop offset)) =
        some (spanLength isPlain (bytes.drop offset)) ∧
      Indented bytes (offset + spanLength isPlain (bytes.drop offset)) := by
  have hwidth := spanLength_le isPlain (bytes.drop offset)
  generalize spanLength isPlain (bytes.drop offset) = width at *
  have hpercent : bytes[offset + width]? = some percent := by
    by_contra hother
    rw [hbare.takenFrom_eq_zero hother] at h
    omega
  have hindent := Nat.le_trans h (hbare.takenFrom_le _)
  have hblank := blank_of_le_indentAt hwidth hindent
  have hlength : ((bytes.drop offset).take width).length = width := List.length_take_of_le hwidth
  constructor
  · rw [restOfLine_of_blank hblank, drop_eq_cons hpercent, restOfLine_cons (by decide),
      commentStart?_blanks hblank, hlength]
  · by_contra hother
    rw [indentAt_of_not_indented hother] at hindent
    omega

end Bare

/-- What is emitted from an offset on is what stands there before a comment, or the line
with its break, and what is emitted behind it. -/
def KeepsText (options : Options) (bytes : List UInt8) (offset : Nat) : Prop :=
  emittedFrom options bytes offset =
    List.range' offset (textWidth (bytes.drop offset)) ++
      emittedFrom options bytes (offset + textWidth (bytes.drop offset))

theorem textWidth_of_none (h : commentStart? (restOfLine l) = none) :
    textWidth l = lineWidth l := by
  rw [textWidth, h]
  rfl

theorem textWidth_of_some (h : commentStart? (restOfLine l) = some n) : textWidth l = n := by
  rw [textWidth, h]
  rfl

/-- If a comment starts in the line at an offset, something stands before it there. -/
def Trails (bytes : List UInt8) (offset : Nat) : Prop :=
  ∀ k, commentStart? (restOfLine (bytes.drop offset)) = some k → ¬ Indented bytes (offset + k)

theorem Trails.behind (h : Trails bytes offset)
    (hstart : commentStart? (restOfLine (bytes.drop offset)) =
      (commentStart? (restOfLine (bytes.drop (offset + n)))).map (· + n)) :
    Trails bytes (offset + n) := by
  intro k hk
  rw [Nat.add_assoc, Nat.add_comm n]
  apply h
  rw [hstart, hk]
  rfl

theorem KeepsText.add
    (hfront : emittedFrom options bytes offset =
      List.range' offset n ++ emittedFrom options bytes (offset + n))
    (hstart : commentStart? (restOfLine (bytes.drop offset)) =
      (commentStart? (restOfLine (bytes.drop (offset + n)))).map (· + n))
    (hwidth : lineWidth (bytes.drop offset) = lineWidth (bytes.drop (offset + n)) + n)
    (h : KeepsText options bytes (offset + n)) : KeepsText options bytes offset := by
  have htext : textWidth (bytes.drop offset) = n + textWidth (bytes.drop (offset + n)) := by
    cases hrest : commentStart? (restOfLine (bytes.drop (offset + n))) with
    | none =>
        rw [hrest] at hstart
        rw [textWidth_of_none hstart, textWidth_of_none hrest, hwidth, Nat.add_comm]
    | some k =>
        rw [hrest] at hstart
        rw [textWidth_of_some hstart, textWidth_of_some hrest, Nat.add_comm]
  rw [KeepsText] at h ⊢
  rw [hfront, h, htext, ← List.append_assoc, List.range'_append_1, Nat.add_assoc]

namespace Bare

theorem keepsText_of_nil (hbare : Bare options bytes)
    (hline : restOfLine (bytes.drop offset) = []) : KeepsText options bytes offset := by
  have hnone : commentStart? (restOfLine (bytes.drop offset)) = none := by
    rw [hline]
    rfl
  rw [KeepsText, textWidth_of_none hnone]
  rcases restOfLine_eq_nil hline with ⟨hbreak, hwidth⟩ | ⟨hend, hwidth⟩
  · rw [hwidth]
    apply hbare.emittedFrom_plain
    · rw [drop_eq_cons hbreak, spanLength_cons_of_pos (by decide)]
      exact Nat.succ_le_succ (Nat.zero_le _)
    · exact indentAt_lineBreak hbreak
  · rw [hwidth]
    rfl

theorem keepsText_of_lastBackslash (hbare : Bare options bytes)
    (hline : restOfLine (bytes.drop offset) = [backslash]) : KeepsText options bytes offset := by
  obtain ⟨hback, hrest, hwidth⟩ := restOfLine_eq_cons hline
  have hnone : commentStart? (restOfLine (bytes.drop offset)) = none := by
    rw [hline]
    rfl
  have hlt := lt_length hback
  rw [KeepsText, textWidth_of_none hnone, hbare.emittedFrom_pair hback]
  rcases restOfLine_eq_nil hrest with ⟨hbreak, hone⟩ | ⟨hend, hzero⟩
  · have hnext := lt_length hbreak
    have htwo : min 2 (bytes.length - offset) = 2 := by omega
    rw [hwidth, hone, htwo]
  · have hone : min 2 (bytes.length - offset) = 1 := by omega
    rw [hwidth, hzero, hone, emittedFrom_of_le (Nat.le_succ_of_le hend), emittedFrom_of_le hend]

theorem emittedFrom_byte (hbare : Bare options bytes) (htrails : Trails bytes offset)
    (hb : bytes[offset]? = some b) (hplain : isPlain b = true) :
    emittedFrom options bytes offset =
      List.range' offset 1 ++ emittedFrom options bytes (offset + 1) := by
  have hspan : 0 < spanLength isPlain (bytes.drop offset) := by
    rw [drop_eq_cons hb, spanLength_cons_of_pos hplain]
    exact Nat.zero_lt_succ _
  have htaken : takenFrom options bytes (offset + spanLength isPlain (bytes.drop offset)) <
      spanLength isPlain (bytes.drop offset) := by
    by_contra hle
    obtain ⟨hcomment, hindented⟩ := hbare.commentStart?_of_takenFrom hspan (Nat.not_lt.1 hle)
    exact htrails _ hcomment hindented
  apply hbare.emittedFrom_run
  omega

/-- The bytes before a comment are emitted, if they are more than its indentation, and so is
a line without a comment. -/
theorem keepsText (hbare : Bare options bytes) (offset : Nat) (htrails : Trails bytes offset) :
    KeepsText options bytes offset := by
  cases hline : restOfLine (bytes.drop offset) with
  | nil => exact hbare.keepsText_of_nil hline
  | cons b rest =>
      obtain ⟨hb, hrest, hwidth⟩ := restOfLine_eq_cons hline
      have hlt := lt_length hb
      by_cases hpercent : b = percent
      · have hzero : commentStart? (restOfLine (bytes.drop offset)) = some 0 := by
          rw [hline, hpercent, commentStart?_percent]
        rw [KeepsText, textWidth_of_some hzero]
        rfl
      by_cases hback : b = backslash
      · subst hback
        cases rest with
        | nil => exact hbare.keepsText_of_lastBackslash hline
        | cons c more =>
            obtain ⟨hc, hmore, hmoreWidth⟩ := restOfLine_eq_cons hrest
            have hstart : commentStart? (restOfLine (bytes.drop offset)) =
                (commentStart? (restOfLine (bytes.drop (offset + 2)))).map (· + 2) := by
              rw [hline, commentStart?_pair, ← hmore]
            have htwo : min 2 (bytes.length - offset) = 2 := by
              have hnext := lt_length hc
              omega
            have hpair := hbare.emittedFrom_pair hb
            rw [htwo] at hpair
            apply KeepsText.add hpair hstart (by rw [hwidth, hmoreWidth])
            exact hbare.keepsText _ (htrails.behind hstart)
      · have hstart : commentStart? (restOfLine (bytes.drop offset)) =
            (commentStart? (restOfLine (bytes.drop (offset + 1)))).map (· + 1) := by
          rw [hline, commentStart?_cons hpercent hback, hrest]
        have hbyte := hbare.emittedFrom_byte htrails hb (isPlain_iff.2 ⟨hback, hpercent⟩)
        apply KeepsText.add hbyte hstart hwidth
        exact hbare.keepsText _ (htrails.behind hstart)
termination_by bytes.length - offset

end Bare

end LatexOrigins.Flat
