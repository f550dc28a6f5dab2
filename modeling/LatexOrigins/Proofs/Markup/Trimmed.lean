import LatexOrigins.Proofs.Markup.Cut
import LatexOrigins.Text.Blank

/-!
# Trimmed names

What is left of an encoded text after trimming starts and ends at cuts, because
trimming takes whole characters off either end. A text with no blank at an end is
left as it is.
-/

namespace LatexOrigins.Text

open Markup

theorem exists_char_of_mem_blankForms {form : List UInt8} (h : form ∈ blankForms) :
    ∃ c, String.utf8EncodeChar c = form := by
  obtain ⟨c, -, hc⟩ := List.mem_map.1 h
  exact ⟨c, hc⟩

theorem find?_form {forms : List (List UInt8)} {l form : List UInt8}
    (h : forms.find? (fun form => !form.isEmpty && form.isPrefixOf l) = some form) :
    form ∈ forms ∧ form <+: l := by
  have hfound := List.find?_some h
  rw [Bool.and_eq_true, List.isPrefixOf_iff_prefix] at hfound
  exact ⟨List.mem_of_find?_eq_some h, hfound.2⟩

theorem Encoded.dropForms {l : List UInt8} (h : Encoded l) : Encoded (dropForms blankForms l) := by
  fun_induction Text.dropForms blankForms l with
  | case1 => exact h
  | case2 l form hfound ih =>
      obtain ⟨hmem, rest, rfl⟩ := find?_form hfound
      obtain ⟨c, rfl⟩ := exists_char_of_mem_blankForms hmem
      rw [List.drop_left] at ih ⊢
      exact ih h.of_char_append

/-- From the back whole characters are taken off as well. -/
theorem exists_dropForms_reverse {l : List UInt8} (h : Encoded l.reverse) :
    ∃ blanks, (Text.dropForms (blankForms.map List.reverse) l).reverse ++ blanks = l.reverse ∧
      Encoded blanks := by
  fun_induction Text.dropForms (blankForms.map List.reverse) l with
  | case1 l => exact ⟨[], List.append_nil _, encoded_nil⟩
  | case2 l form hfound ih =>
      obtain ⟨hmem, rest, rfl⟩ := find?_form hfound
      obtain ⟨blank, hblank, rfl⟩ := List.mem_map.1 hmem
      obtain ⟨c, rfl⟩ := exists_char_of_mem_blankForms hblank
      have hchar : Encoded (String.utf8EncodeChar c) := ⟨[c], List.append_nil _⟩
      rw [List.reverse_append, List.reverse_reverse] at h ⊢
      rw [List.drop_left] at ih ⊢
      obtain ⟨blanks, hblanks, hencoded⟩ := ih (h.of_append hchar)
      exact ⟨blanks ++ String.utf8EncodeChar c, by rw [← hblanks, List.append_assoc],
        hencoded.append hchar⟩

/-- How many bytes trimming takes off the front. -/
def leadingBlanks (l : List UInt8) : Nat := l.length - (trimStart l).length

theorem drop_leadingBlanks (l : List UInt8) : l.drop (leadingBlanks l) = trimStart l :=
  (List.suffix_iff_eq_drop.1 (trimStart_suffix l)).symm

theorem cut_leadingBlanks {l : List UInt8} (h : Encoded l) : Cut l (leadingBlanks l) := by
  refine ⟨Nat.sub_le _ _, ?_⟩
  rw [drop_leadingBlanks]
  exact h.dropForms

theorem cut_trimEnd {l : List UInt8} (h : Encoded l) : Cut l (trimEnd l).length := by
  have hfront := trimEnd_prefix l
  refine ⟨hfront.length_le, ?_⟩
  obtain ⟨blanks, hblanks, hencoded⟩ :=
    exists_dropForms_reverse (l := l.reverse) (by rwa [List.reverse_reverse])
  rw [List.reverse_reverse] at hblanks
  change trimEnd l ++ blanks = l at hblanks
  have hdrop := congrArg (List.drop (trimEnd l).length) hblanks
  rw [List.drop_left] at hdrop
  rw [← hdrop]
  exact hencoded

theorem cut_trim {l : List UInt8} (h : Encoded l) :
    Cut l (leadingBlanks l + (trim l).length) := by
  have hstart := cut_leadingBlanks h
  refine hstart.add ?_
  rw [drop_leadingBlanks]
  exact cut_trimEnd h.dropForms

/-! ## Names that trimming leaves alone -/

/-- A text neither starts nor ends with a blank character. -/
def Trimmed (s : String) : Prop :=
  (∀ c ∈ s.toList.head?, isBlank c = false) ∧ ∀ c ∈ s.toList.getLast?, isBlank c = false

-- The instances for options are named, so that never all characters are gone through.
instance (s : String) : Decidable (Trimmed s) :=
  @instDecidableAnd _ _ (Option.decidableForallMem s.toList.head?)
    (Option.decidableForallMem s.toList.getLast?)

theorem dropForms_eq_self {forms : List (List UInt8)} {l : List UInt8}
    (h : ∀ form ∈ forms, ¬ form <+: l) : dropForms forms l = l := by
  rw [Text.dropForms]
  split
  · rfl
  · next form hfound =>
    obtain ⟨hmem, hfront⟩ := find?_form hfound
    exact absurd hfront (h form hmem)

theorem exists_blank_of_mem_blankForms {form : List UInt8} (h : form ∈ blankForms) :
    ∃ c, isBlank c = true ∧ String.utf8EncodeChar c = form := by
  obtain ⟨c, hc, hform⟩ := List.mem_map.1 h
  exact ⟨c, List.contains_iff_mem.2 hc, hform⟩

theorem Trimmed.trim_eq {s : String} (h : Trimmed s) : trim (bytes s) = bytes s := by
  have hfront : trimStart (bytes s) = bytes s := by
    refine dropForms_eq_self fun form hform hprefix => ?_
    obtain ⟨c, hblank, rfl⟩ := exists_blank_of_mem_blankForms hform
    rw [h.1 c (head?_of_starts hprefix)] at hblank
    cases hblank
  have hback : trimEnd (bytes s) = bytes s := by
    rw [trimEnd, dropForms_eq_self, List.reverse_reverse]
    intro form hform hprefix
    obtain ⟨blank, hmem, rfl⟩ := List.mem_map.1 hform
    obtain ⟨c, hblank, rfl⟩ := exists_blank_of_mem_blankForms hmem
    rw [h.2 c (getLast?_of_ends (List.reverse_prefix.1 hprefix))] at hblank
    cases hblank
  rw [trim, hfront, hback]

end LatexOrigins.Text
