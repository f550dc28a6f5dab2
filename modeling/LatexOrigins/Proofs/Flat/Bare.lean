import LatexOrigins.Proofs.Flat.Directive
import LatexOrigins.Proofs.Flat.Silence

/-!
# Contents in which only comments mean something

If the options name no command and a content has no `\verb`, the scan keeps what it passes
over, comments apart. What it emits from an offset on follows three equations: for a run of
bytes that mean nothing, for a backslash with the byte behind it, and for a comment. They
hold at every offset, also where no step of a scan starts, so the runs can be taken apart
where lines end.
-/

namespace LatexOrigins.Flat

open Markup
open Text (Encoded)

/-- Nothing is included or unwrapped, and there is no `\verb`. -/
structure Bare (options : Options) (bytes : List UInt8) : Prop where
  includes : options.includeCommands = []
  rules : options.commandRules = []
  verb : ¬ Text.bytes "\\verb" <:+: bytes

/-- The offsets that the scan of a content emits from an offset on. -/
def emittedFrom (options : Options) (bytes : List UInt8) (offset : Nat) : List Nat :=
  (settle (movesBetween options bytes offset bytes.length)).flatMap offsetsOf

/-- How many bytes before an offset the scan from there on takes back. -/
def takenFrom (options : Options) (bytes : List UInt8) (offset : Nat) : Nat :=
  takenBack (movesBetween options bytes offset bytes.length)

variable {options : Options} {bytes l : List UInt8} {offset n : Nat} {b : UInt8}

theorem emittedFrom_of_le (h : bytes.length ≤ offset) : emittedFrom options bytes offset = [] := by
  rw [emittedFrom, movesBetween_of_le h]
  rfl

theorem takenFrom_of_le (h : bytes.length ≤ offset) : takenFrom options bytes offset = 0 := by
  rw [takenFrom, movesBetween_of_le h]
  rfl

/-! ## Steps -/

namespace Bare

theorem controlStep_eq (hbare : Bare options bytes) {rest : List UInt8}
    (hverb : Text.bytes "verb" ≠ rest.take (wordWidth rest)) :
    controlStep options l rest =
      .keep (1 + if wordWidth rest = 0 then charWidth rest else wordWidth rest) := by
  have hlength : (rest.take (wordWidth rest)).length = wordWidth rest :=
    List.length_take_of_le (spanLength_le _ _)
  have hempty : rest.take (wordWidth rest) = [] ↔ wordWidth rest = 0 := by
    rw [← List.length_eq_zero_iff, hlength]
  unfold controlStep
  simp only [hbare.includes, hbare.rules, hlength, hempty, List.find?_nil, List.any_nil]
  split
  · rfl
  · rw [if_neg (by simpa using hverb)]
    rfl

theorem word_ne_verb (hbare : Bare options bytes) (hback : bytes[offset]? = some backslash) :
    Text.bytes "verb" ≠
      (bytes.drop (offset + 1)).take (wordWidth (bytes.drop (offset + 1))) := by
  intro hword
  apply hbare.verb
  have hverb : Text.bytes "\\verb" = backslash :: Text.bytes "verb" := by decide +kernel
  have hfront : Text.bytes "\\verb" <+: bytes.drop offset := by
    rw [hverb, hword, drop_eq_cons hback]
    exact (List.prefix_cons_inj backslash).2 (List.take_prefix _ _)
  exact hfront.isInfix.trans (List.drop_suffix offset bytes).isInfix

theorem stepAt_control (hbare : Bare options bytes) (hback : bytes[offset]? = some backslash) :
    stepAt options bytes offset bytes.length =
      .keep (1 + if wordWidth (bytes.drop (offset + 1)) = 0 then
          charWidth (bytes.drop (offset + 1))
        else wordWidth (bytes.drop (offset + 1))) := by
  rw [stepAt, drop_eq_cons hback, step_backslash]
  exact hbare.controlStep_eq (hbare.word_ne_verb hback)

theorem stepAt_lastBackslash (hbare : Bare options bytes)
    (hback : bytes[offset]? = some backslash) (hend : bytes.length ≤ offset + 1) :
    stepAt options bytes offset bytes.length = .keep 1 := by
  rw [hbare.stepAt_control hback, List.drop_eq_nil_of_le hend]
  rfl

/-- A backslash keeps the byte behind it, and with that the letters of a word or the bytes
that continue a character. Behind them no indentation stands. -/
theorem stepAt_backslash (hbare : Bare options bytes) (hback : bytes[offset]? = some backslash)
    (hb : bytes[offset + 1]? = some b) :
    ∃ width, stepAt options bytes offset bytes.length = .keep (2 + width) ∧
      width ≤ spanLength isPlain (bytes.drop (offset + 2)) ∧
      indentAt bytes (offset + (2 + width)) = 0 := by
  have hrest := drop_eq_cons hb
  rw [hbare.stepAt_control hback]
  by_cases hletter : isLetter b = true
  · have hword : wordWidth (bytes.drop (offset + 1)) =
        1 + spanLength isLetter (bytes.drop (offset + 2)) := by
      rw [wordWidth, hrest, spanLength_cons_of_pos hletter, Nat.add_comm]
    refine ⟨spanLength isLetter (bytes.drop (offset + 2)), ?_,
      spanLength_mono (isPlain_of_test rfl rfl) _, ?_⟩
    · rw [hword, if_neg (by omega), ← Nat.add_assoc]
    · have hsecond := Solid.of_byte hb
        (not_inlineBlank_of_isGraphic (isGraphic_of_isLetter hletter))
      have hletters := solid_span (l := bytes.drop (offset + 2)) fun c hc =>
        not_inlineBlank_of_isGraphic (isGraphic_of_isLetter hc)
      rw [← Nat.add_assoc]
      exact indentAt_of_solid (hsecond.add hletters)
  · have hword : wordWidth (bytes.drop (offset + 1)) = 0 := by
      rw [wordWidth, hrest, spanLength_cons_of_neg hletter]
    have hsymbol : 1 + charWidth (bytes.drop (offset + 1)) =
        2 + spanLength isContinuation (bytes.drop (offset + 2)) := by
      rw [hrest, charWidth, ← Nat.add_assoc]
    refine ⟨spanLength isContinuation (bytes.drop (offset + 2)), ?_,
      spanLength_mono (isPlain_of_test rfl rfl) _, ?_⟩
    · rw [hword, if_pos rfl, hsymbol]
    · rw [← hsymbol]
      exact indentAt_symbol hback

/-! ## What is emitted -/

theorem movesBetween_eq (hbare : Bare options bytes) (hlt : offset < bytes.length) :
    movesBetween options bytes offset bytes.length =
      (stepAt options bytes offset bytes.length).movesAt offset ++
        movesBetween options bytes (offset + (stepAt options bytes offset bytes.length).width)
          bytes.length := by
  apply movesBetween_of_keepsNone _ hlt
  rw [hbare.rules]
  exact List.forall_mem_nil _

theorem emittedFrom_of_keep (hbare : Bare options bytes) (hlt : offset < bytes.length)
    (hstep : stepAt options bytes offset bytes.length = .keep n) :
    emittedFrom options bytes offset =
        List.range' offset (n - takenFrom options bytes (offset + n)) ++
          emittedFrom options bytes (offset + n) ∧
      takenFrom options bytes offset = 0 := by
  have hmoves := hbare.movesBetween_eq hlt
  rw [hstep] at hmoves
  have hcount : offset + n - takenFrom options bytes (offset + n) - offset =
      n - takenFrom options bytes (offset + n) := by
    omega
  constructor
  · rw [emittedFrom, hmoves, ← hcount]
    rfl
  · rw [takenFrom, hmoves]
    rfl

theorem emittedFrom_comment (hbare : Bare options bytes)
    (hpercent : bytes[offset]? = some percent) :
    ∃ indentation width,
      CommentAt options (bytes.take offset).reverse (bytes.drop offset) indentation width ∧
      emittedFrom options bytes offset = emittedFrom options bytes (offset + width) ∧
      takenFrom options bytes offset = indentAt bytes offset := by
  obtain ⟨indentation, width, hstep, hcomment⟩ := stepAt_comment hpercent
  have hmoves := hbare.movesBetween_eq (lt_length hpercent)
  rw [hstep] at hmoves
  refine ⟨indentation, width, hcomment, ?_, ?_⟩
  · have hbehind : emittedFrom options bytes offset =
        emittedFrom options bytes (offset + min width (bytes.length - offset)) := by
      rw [emittedFrom, hmoves]
      rfl
    rw [hbehind]
    rcases Nat.le_total width (bytes.length - offset) with hle | hle
    · rw [Nat.min_eq_left hle]
    · rw [Nat.min_eq_right hle, emittedFrom_of_le (by omega), emittedFrom_of_le (by omega)]
  · rw [takenFrom, hmoves]
    cases hcomment with
    | trailing h => exact (indentAt_of_not_indented h).symm
    | alone h | pause h => exact (indentAt_of_indented h).symm

theorem takenFrom_eq_zero (hbare : Bare options bytes) (h : bytes[offset]? ≠ some percent) :
    takenFrom options bytes offset = 0 := by
  cases hb : bytes[offset]? with
  | none => exact takenFrom_of_le (List.getElem?_eq_none_iff.1 hb)
  | some b =>
      have hpercent : b ≠ percent := by
        rintro rfl
        exact h hb
      by_cases hback : b = backslash
      · subst hback
        cases hnext : bytes[offset + 1]? with
        | none =>
            have hstep := hbare.stepAt_lastBackslash hb (List.getElem?_eq_none_iff.1 hnext)
            exact (hbare.emittedFrom_of_keep (lt_length hb) hstep).2
        | some c =>
            obtain ⟨width, hstep, -⟩ := hbare.stepAt_backslash hb hnext
            exact (hbare.emittedFrom_of_keep (lt_length hb) hstep).2
      · have hplain : isPlain b = true := isPlain_iff.2 ⟨hback, hpercent⟩
        exact (hbare.emittedFrom_of_keep (lt_length hb) (stepAt_plain hb hplain)).2

theorem takenFrom_le (hbare : Bare options bytes) (offset : Nat) :
    takenFrom options bytes offset ≤ indentAt bytes offset := by
  by_cases hpercent : bytes[offset]? = some percent
  · obtain ⟨_, _, -, -, htaken⟩ := hbare.emittedFrom_comment hpercent
    exact Nat.le_of_eq htaken
  · rw [hbare.takenFrom_eq_zero hpercent]
    exact Nat.zero_le _

/-! ## Runs and pairs -/

theorem emittedFrom_span (hbare : Bare options bytes) (offset : Nat) :
    emittedFrom options bytes offset =
      List.range' offset (spanLength isPlain (bytes.drop offset) -
          takenFrom options bytes (offset + spanLength isPlain (bytes.drop offset))) ++
        emittedFrom options bytes (offset + spanLength isPlain (bytes.drop offset)) := by
  cases hb : bytes[offset]? with
  | none =>
      rw [List.drop_eq_nil_of_le (List.getElem?_eq_none_iff.1 hb)]
      simp [spanLength]
  | some b =>
      by_cases hplain : isPlain b = true
      · exact (hbare.emittedFrom_of_keep (lt_length hb) (stepAt_plain hb hplain)).1
      · rw [drop_eq_cons hb, spanLength_cons_of_neg hplain, Nat.zero_sub, Nat.add_zero]
        rfl

theorem emittedFrom_run (hbare : Bare options bytes)
    (hn : n + takenFrom options bytes (offset + spanLength isPlain (bytes.drop offset)) ≤
      spanLength isPlain (bytes.drop offset)) :
    emittedFrom options bytes offset =
      List.range' offset n ++ emittedFrom options bytes (offset + n) := by
  have hrest := hbare.emittedFrom_span (offset + n)
  have hspan : spanLength isPlain (bytes.drop (offset + n)) =
      spanLength isPlain (bytes.drop offset) - n := by
    rw [← List.drop_drop, spanLength_drop (by omega)]
  have hend : offset + n + (spanLength isPlain (bytes.drop offset) - n) =
      offset + spanLength isPlain (bytes.drop offset) := by
    omega
  rw [hspan, hend] at hrest
  rw [hbare.emittedFrom_span offset, hrest, ← List.append_assoc, List.range'_append_1]
  congr 2
  omega

theorem emittedFrom_plain (hbare : Bare options bytes)
    (hn : n ≤ spanLength isPlain (bytes.drop offset)) (hindent : indentAt bytes (offset + n) = 0) :
    emittedFrom options bytes offset =
      List.range' offset n ++ emittedFrom options bytes (offset + n) := by
  apply hbare.emittedFrom_run
  have htaken := hbare.takenFrom_le (offset + spanLength isPlain (bytes.drop offset))
  have hgrows := indentAt_add_le bytes (offset + n) (spanLength isPlain (bytes.drop offset) - n)
  have hend : offset + n + (spanLength isPlain (bytes.drop offset) - n) =
      offset + spanLength isPlain (bytes.drop offset) := by
    omega
  rw [hend] at hgrows
  omega

/-- A backslash and the byte behind it are emitted, whatever that byte is. -/
theorem emittedFrom_pair (hbare : Bare options bytes) (hback : bytes[offset]? = some backslash) :
    emittedFrom options bytes offset =
      List.range' offset (min 2 (bytes.length - offset)) ++
        emittedFrom options bytes (offset + 2) := by
  have hlt := lt_length hback
  cases hb : bytes[offset + 1]? with
  | none =>
      have hend := List.getElem?_eq_none_iff.1 hb
      have hone : min 2 (bytes.length - offset) = 1 := by omega
      have hstep := hbare.stepAt_lastBackslash hback hend
      rw [(hbare.emittedFrom_of_keep hlt hstep).1, takenFrom_of_le hend, emittedFrom_of_le hend,
        emittedFrom_of_le (Nat.le_succ_of_le hend), hone]
  | some b =>
      have htwo : min 2 (bytes.length - offset) = 2 := by
        have hnext := lt_length hb
        omega
      obtain ⟨width, hstep, hplain, hindent⟩ := hbare.stepAt_backslash hback hb
      have htaken := hbare.takenFrom_le (offset + (2 + width))
      rw [hindent, Nat.le_zero] at htaken
      have hbehind := hbare.emittedFrom_plain hplain (by rwa [Nat.add_assoc])
      rw [(hbare.emittedFrom_of_keep hlt hstep).1, htaken, Nat.sub_zero, htwo, hbehind,
        ← List.append_assoc, List.range'_append_1, Nat.add_assoc]

end Bare

end LatexOrigins.Flat
