import LatexOrigins.Proofs.Flat.Scan

/-!
# Indentation

A comment that stands alone on its line takes the indentation before it back. The
scan has always kept that indentation in the step just before: a run of bytes that
mean nothing ends only at a backslash, at a comment or where the range ends, and
what any other step passes over is no indentation. So each move that takes bytes
back takes them from the end of the piece that was kept last.
-/

namespace LatexOrigins.Flat

open Markup
open Text (Encoded)

/-- Between the start of its line and an offset only blanks stand. -/
def Indented (bytes : List UInt8) (offset : Nat) : Prop :=
  (restOfLine (bytes.take offset).reverse).all isInlineBlank = true

/-- How many blanks stand between the start of its line and an offset, if nothing else
does. -/
def indentAt (bytes : List UInt8) (offset : Nat) : Nat :=
  let line := restOfLine (bytes.take offset).reverse
  if line.all isInlineBlank then line.length else 0

variable {options : Options} {bytes : List UInt8} {offset limit k : Nat} {b : UInt8}

theorem indentAt_of_not_indented (h : ¬ Indented bytes offset) : indentAt bytes offset = 0 :=
  if_neg h

theorem indentAt_of_indented (h : Indented bytes offset) :
    indentAt bytes offset = (restOfLine (bytes.take offset).reverse).length :=
  if_pos h

theorem reverse_take_succ (h : bytes[k]? = some b) :
    (bytes.take (k + 1)).reverse = b :: (bytes.take k).reverse := by
  rw [List.take_add_one, h, Option.toList_some, List.reverse_append]
  rfl

theorem restOfLine_cons (hb : b ≠ lineBreak) (l : List UInt8) :
    restOfLine (b :: l) = b :: restOfLine l :=
  List.takeWhile_cons_of_pos (decide_eq_true hb)

theorem indentAt_lineBreak (h : bytes[k]? = some lineBreak) : indentAt bytes (k + 1) = 0 := by
  have hline : restOfLine (lineBreak :: (bytes.take k).reverse) = [] := rfl
  simp only [indentAt, reverse_take_succ h, hline]
  rfl

theorem indented_succ_iff (h : bytes[k]? = some b) (hb : b ≠ lineBreak) :
    Indented bytes (k + 1) ↔ isInlineBlank b = true ∧ Indented bytes k := by
  rw [Indented, reverse_take_succ h, restOfLine_cons hb, List.all_cons, Bool.and_eq_true]
  rfl

theorem indentAt_succ_le (bytes : List UInt8) (k : Nat) :
    indentAt bytes (k + 1) ≤ indentAt bytes k + 1 := by
  cases h : bytes[k]? with
  | none =>
      have hle : bytes.length ≤ k := List.getElem?_eq_none_iff.1 h
      rw [indentAt, indentAt, List.take_of_length_le hle, List.take_of_length_le (by omega)]
      exact Nat.le_succ _
  | some b =>
      by_cases hb : b = lineBreak
      · rw [indentAt_lineBreak (hb ▸ h)]
        exact Nat.zero_le _
      · by_cases hindented : Indented bytes (k + 1)
        · have hbefore := ((indented_succ_iff h hb).1 hindented).2
          rw [indentAt_of_indented hindented, indentAt_of_indented hbefore, reverse_take_succ h,
            restOfLine_cons hb]
          exact Nat.le_refl _
        · rw [indentAt_of_not_indented hindented]
          exact Nat.zero_le _

theorem indentAt_add_le (bytes : List UInt8) (offset n : Nat) :
    indentAt bytes (offset + n) ≤ indentAt bytes offset + n := by
  induction n with
  | zero => exact Nat.le_refl _
  | succ n ih =>
      have hsucc := indentAt_succ_le bytes (offset + n)
      rw [← Nat.add_assoc]
      omega

/-! ## Where there is none -/

theorem indentAt_of_solid (h : Solid bytes offset) : indentAt bytes offset = 0 := by
  obtain ⟨k, b, rfl, hk, hb⟩ := h
  by_cases hbreak : b = lineBreak
  · exact indentAt_lineBreak (hbreak ▸ hk)
  · apply indentAt_of_not_indented
    rw [indented_succ_iff hk hbreak, hb]
    simp

theorem not_indented_of_line {n : Nat} (hb : bytes[offset]? = some b)
    (hblank : isInlineBlank b = false) (hn : 0 < n)
    (hline : ∀ i < n, ∃ c, bytes[offset + i]? = some c ∧ c ≠ lineBreak) :
    ¬ Indented bytes (offset + n) := by
  induction n with
  | zero => omega
  | succ n ih =>
      obtain ⟨c, hc, hbreak⟩ := hline n (Nat.lt_succ_self n)
      rw [← Nat.add_assoc, indented_succ_iff hc hbreak]
      rintro ⟨hcblank, hbefore⟩
      by_cases hzero : n = 0
      · subst hzero
        obtain rfl := Option.some.inj (hb.symm.trans hc)
        rw [hblank] at hcblank
        cases hcblank
      · exact ih (by omega) (fun i hi => hline i (by omega)) hbefore

theorem not_inlineBlank_of_isContinuation {b : UInt8} (h : isContinuation b = true) :
    isInlineBlank b = false := by
  rw [← Bool.not_eq_true]
  intro hblank
  simp only [isInlineBlank, Bool.or_eq_true, decide_eq_true_eq] at hblank
  rcases hblank with rfl | rfl
  · exact absurd h (by decide)
  · exact absurd h (by decide)

theorem indentAt_symbol (hback : bytes[offset]? = some backslash) :
    indentAt bytes (offset + (1 + charWidth (bytes.drop (offset + 1)))) = 0 := by
  cases hrest : bytes.drop (offset + 1) with
  | nil => exact indentAt_of_solid (Solid.of_byte hback (by decide))
  | cons c rest =>
      have hc : bytes[offset + 1]? = some c := by
        rw [← Nat.add_zero (offset + 1), ← List.getElem?_drop, hrest]
        rfl
      have hmore : rest = bytes.drop (offset + 1 + 1) := by
        rw [← List.drop_drop, hrest]
        rfl
      rw [charWidth, ← Nat.add_assoc, ← Nat.add_assoc]
      rcases solid_span (l := rest) fun _ => not_inlineBlank_of_isContinuation with hzero | hsolid
      · rw [hzero, Nat.add_zero]
        by_cases hbreak : c = lineBreak
        · exact indentAt_lineBreak (hbreak ▸ hc)
        · -- A blank behind the backslash is no indentation, because the backslash is none.
          apply indentAt_of_not_indented
          rw [indented_succ_iff hc hbreak, indented_succ_iff hback (by decide)]
          rintro ⟨-, hblank, -⟩
          exact absurd hblank (by decide)
      · rw [hmore] at hsolid ⊢
        exact indentAt_of_solid hsolid.of_drop

theorem exists_byte_of_lt_restOfLine (h : k < (restOfLine (bytes.drop offset)).length) :
    ∃ c, bytes[offset + k]? = some c ∧ c ≠ lineBreak := by
  have hbreak := List.all_eq_true.1 List.all_takeWhile _ (List.getElem_mem h)
  refine ⟨(restOfLine (bytes.drop offset))[k], ?_, of_decide_eq_true hbreak⟩
  have hprefix : restOfLine (bytes.drop offset) <+: bytes.drop offset :=
    List.takeWhile_prefix _
  rw [← List.getElem?_drop, List.prefix_iff_getElem?.1 hprefix k h]

theorem indentAt_trailing (hpercent : bytes[offset]? = some percent)
    (hlt : 0 < (restOfLine (bytes.drop offset)).length) :
    indentAt bytes (offset + (restOfLine (bytes.drop offset)).length) = 0 := by
  apply indentAt_of_not_indented
  exact not_indented_of_line hpercent (by decide) hlt fun _ => exists_byte_of_lt_restOfLine

/-- Indentation can be cut at each of its blanks. -/
theorem cut_of_le_indentAt (hencoded : Encoded bytes) (hcut : Cut bytes offset) {n : Nat}
    (hn : n ≤ indentAt bytes offset) : Cut bytes (offset - n) := by
  cases n with
  | zero => exact hcut
  | succ n =>
      by_cases hindented : Indented bytes offset
      · rw [indentAt_of_indented hindented] at hn
        have hprefix : restOfLine (bytes.take offset).reverse <+: (bytes.take offset).reverse :=
          List.takeWhile_prefix _
        have hblank := List.all_eq_true.1 hindented _ (List.getElem_mem hn)
        have hbyte := List.prefix_iff_getElem?.1 hprefix n hn
        have hle := hcut.le_length
        have hlt : n < offset := by
          have hlength := hprefix.length_le
          rw [List.length_reverse, List.length_take_of_le hle] at hlength
          omega
        rw [getElem?_reverse_take hle hlt, Nat.sub_sub, Nat.add_comm 1 n] at hbyte
        refine (Cut.of_ascii hencoded hbyte ?_).1
        simp only [isInlineBlank, Bool.or_eq_true, decide_eq_true_eq] at hblank
        rcases hblank with hblank | hblank
        · rw [hblank]
          decide
        · rw [hblank]
          decide
      · rw [indentAt_of_not_indented hindented] at hn
        omega

end LatexOrigins.Flat
