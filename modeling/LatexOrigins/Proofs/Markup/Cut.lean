import LatexOrigins.Markup.Group
import LatexOrigins.Proofs.Text.Encoded

/-!
# Cuts

The scan of the markup advances by widths that it measures on bytes. In an
encoded text each of them is a cut: it stays inside the text and splits no
character. Where a measure ends at an ASCII byte this is the reason, and cuts
that follow each other add up.
-/

namespace LatexOrigins.Markup

open Text (Encoded)

/-- So many bytes can be taken off a byte sequence without splitting a character. -/
structure Cut (l : List UInt8) (n : Nat) : Prop where
  le_length : n ≤ l.length
  encoded : Encoded (l.drop n)

namespace Cut

theorem zero {l : List UInt8} (h : Encoded l) : Cut l 0 := ⟨Nat.zero_le _, by simpa using h⟩

theorem length (l : List UInt8) : Cut l l.length := by
  refine ⟨Nat.le_refl _, ?_⟩
  rw [List.drop_length]
  exact Text.encoded_nil

theorem add {l : List UInt8} {n m : Nat} (h : Cut l n) (hm : Cut (l.drop n) m) :
    Cut l (n + m) := by
  have hn := h.le_length
  have hle := hm.le_length
  rw [List.length_drop] at hle
  refine ⟨by omega, ?_⟩
  rw [← List.drop_drop]
  exact hm.encoded

theorem of_ascii {l : List UInt8} {n : Nat} {b : UInt8} (h : Encoded l) (hn : l[n]? = some b)
    (hb : b < 0x80) : Cut l n ∧ Cut l (n + 1) := by
  have hlt := (List.getElem?_eq_some_iff.1 hn).1
  have hcut := h.drop_ascii hn hb
  exact ⟨⟨by omega, hcut.1⟩, ⟨hlt, hcut.2⟩⟩

theorem split (l : List UInt8) {n m : Nat} (hle : n ≤ m) :
    l.drop n = (l.drop n).take (m - n) ++ l.drop m := by
  have hrest := List.take_append_drop (m - n) (l.drop n)
  rw [List.drop_drop, Nat.add_sub_cancel' hle] at hrest
  exact hrest.symm

theorem between {l : List UInt8} {n m : Nat} (hn : Cut l n) (hm : Cut l m) (hle : n ≤ m) :
    Encoded ((l.drop n).take (m - n)) := by
  have hencoded := hn.encoded
  rw [split l hle] at hencoded
  exact hencoded.of_append hm.encoded

theorem behind {l needle : List UInt8} {n : Nat} {b : UInt8} (h : Encoded l)
    (hstart : needle ++ [b] <+: l.drop n) (hb : b < 0x80) :
    Cut l (n + (needle ++ [b]).length) := by
  have hlast : l[n + needle.length]? = some b := by
    obtain ⟨rest, hrest⟩ := hstart
    rw [← List.getElem?_drop, ← hrest]
    simp
  rw [List.length_append, List.length_singleton, ← Nat.add_assoc]
  exact (of_ascii h hlast hb).2

end Cut

theorem isBoundary_iff_cut {s : String} {offset : Nat} :
    Text.isBoundary s offset = true ↔ Cut (Text.bytes s) offset := by
  rw [Text.isBoundary_iff_encoded]
  exact ⟨fun h => ⟨h.1, h.2⟩, fun h => ⟨h.le_length, h.encoded⟩⟩

/-! ## Symbols -/

theorem lt_of_isLetter {b : UInt8} (h : isLetter b = true) : b < 0x80 := by
  simp only [isLetter, Bool.or_eq_true, Bool.and_eq_true, decide_eq_true_eq] at h
  rcases h with ⟨-, h⟩ | ⟨-, h⟩
  · exact UInt8.lt_of_le_of_lt h (by decide)
  · exact UInt8.lt_of_le_of_lt h (by decide)

theorem lt_of_isGraphic {b : UInt8} (h : isGraphic b = true) : b < 0x80 := by
  simp only [isGraphic, Bool.and_eq_true, decide_eq_true_eq] at h
  exact UInt8.lt_of_le_of_lt h.2 (by decide)

theorem cut_spanLength {test : UInt8 → Bool} {l : List UInt8} (h : Encoded l)
    (htest : ∀ b, test b = true → b < 0x80) : Cut l (spanLength test l) :=
  ⟨spanLength_le test l, h.drop_span_ascii htest⟩

theorem cut_wordWidth {l : List UInt8} (h : Encoded l) : Cut l (wordWidth l) :=
  cut_spanLength h fun _ => lt_of_isLetter

theorem cut_starWidth {l : List UInt8} (h : Encoded l) : Cut l (starWidth l) := by
  unfold starWidth
  split
  · next hstar =>
    rw [List.head?_eq_getElem?] at hstar
    exact (Cut.of_ascii h hstar (by decide)).2
  · exact Cut.zero h

theorem cut_charWidth {l : List UInt8} (h : Encoded l) : Cut l (charWidth l) := by
  refine ⟨?_, h.drop_charWidth⟩
  cases l with
  | nil => exact Nat.le_refl _
  | cons b rest =>
      have hle := spanLength_le isContinuation rest
      rw [charWidth, List.length_cons]
      omega

theorem cut_restOfLine {l : List UInt8} (h : Encoded l) : Cut l (restOfLine l).length := by
  refine ⟨spanLength_le _ l, ?_⟩
  apply h.drop_span
  intro b hb
  obtain rfl : b = lineBreak := by simpa using hb
  rfl

/-! ## Searches -/

theorem indexOf?_eq_some {needle l : List UInt8} {n : Nat} (h : indexOf? needle l = some n) :
    needle <+: l.drop n := by
  induction l generalizing n with
  | nil =>
      rw [indexOf?] at h
      split at h
      · next hempty => simp [List.isEmpty_iff.1 hempty]
      · simp at h
  | cons b rest ih =>
      rw [indexOf?] at h
      split at h
      · next hfront =>
        obtain rfl := Option.some.inj h
        exact List.isPrefixOf_iff_prefix.1 hfront
      · obtain ⟨m, hm, rfl⟩ := Option.map_eq_some_iff.1 h
        rw [List.drop_succ_cons]
        exact ih hm

theorem unescapedIndexOf?_eq_some {needle l : List UInt8} {n : Nat}
    (h : unescapedIndexOf? needle l = some n) : needle <+: l.drop n := by
  fun_induction unescapedIndexOf? needle l generalizing n with
  | case1 => simp at h
  | case2 b rest hfront =>
      obtain rfl := Option.some.inj h
      exact List.isPrefixOf_iff_prefix.1 hfront
  | case3 => simp at h
  | case4 _ rest _ ih =>
      obtain ⟨m, hm, rfl⟩ := Option.map_eq_some_iff.1 h
      rw [List.drop_succ_cons, List.drop_succ_cons]
      exact ih hm
  | case5 b rest _ _ ih =>
      obtain ⟨m, hm, rfl⟩ := Option.map_eq_some_iff.1 h
      rw [List.drop_succ_cons]
      exact ih hm

/-! ## Groups -/

theorem closing_eq_some {left right : UInt8} {depth braces n : Nat} {l : List UInt8}
    (h : closing left right depth braces l = some n) : l[n]? = some right := by
  fun_induction closing left right depth braces l generalizing n with
  | case1 => simp at h
  | case2 => simp at h
  | case3 _ _ _ rest ih =>
      obtain ⟨m, hm, rfl⟩ := Option.map_eq_some_iff.1 h
      rw [List.getElem?_cons_succ, List.getElem?_cons_succ]
      exact ih hm
  | case5 _ _ b rest _ _ hright =>
      obtain rfl := Option.some.inj h
      simp only [Bool.and_eq_true, decide_eq_true_eq] at hright
      rw [List.getElem?_cons_zero, hright.1]
  | case4 _ _ _ _ _ _ ih | case6 _ _ _ _ _ _ _ _ ih | case7 _ _ _ _ _ _ ih
  | case8 _ _ _ _ _ _ _ ih | case9 _ _ _ _ _ _ _ _ _ ih =>
      obtain ⟨m, hm, rfl⟩ := Option.map_eq_some_iff.1 h
      rw [List.getElem?_cons_succ]
      exact ih hm

/-- The delimiters stand just before and just behind the content of a group. -/
theorem delimited_ends {left right : UInt8} {l : List UInt8} {g : Group}
    (h : delimited left right l = some g) :
    l[g.start - 1]? = some left ∧ l[g.stop]? = some right := by
  unfold delimited at h
  simp only at h
  split at h
  · simp at h
  · next b rest hdrop =>
    split at h
    · next hb =>
      subst hb
      obtain ⟨n, hn, rfl⟩ := Option.map_eq_some_iff.1 h
      constructor
      · simp only [Nat.add_sub_cancel]
        rw [← Nat.add_zero (spanLength _ l), ← List.getElem?_drop, hdrop]
        rfl
      · simp only
        rw [Nat.add_assoc, ← List.getElem?_drop, hdrop, Nat.add_comm 1 n, List.getElem?_cons_succ]
        exact closing_eq_some hn
    · simp at h

theorem verbArgument_ends {l : List UInt8} {g : Group} (h : verbArgument l = some g) :
    ∃ delimiter, isGraphic delimiter = true ∧ l[g.start - 1]? = some delimiter ∧
      l[g.stop]? = some delimiter := by
  unfold verbArgument at h
  simp only at h
  split at h
  · simp at h
  · next delimiter rest hdrop =>
    split at h
    · next hgraphic =>
      split at h
      · next hclose =>
        obtain rfl := Option.some.inj h
        rw [Bool.and_eq_true] at hgraphic
        refine ⟨delimiter, hgraphic.1, ?_, ?_⟩
        · simp only [Nat.add_sub_cancel]
          rw [← Nat.add_zero (starWidth l), ← List.getElem?_drop, hdrop]
          rfl
        · rw [List.head?_eq_getElem?, List.getElem?_drop, Nat.add_zero] at hclose
          simp only
          rw [Nat.add_assoc, ← List.getElem?_drop, hdrop, Nat.add_comm 1, List.getElem?_cons_succ]
          exact hclose
      · simp at h
    · simp at h

/-- Both ends of a group's content and the end of the group are cuts. -/
structure Group.Cuts (g : Group) (l : List UInt8) : Prop where
  start : Cut l g.start
  stop : Cut l g.stop
  width : Cut l g.width

theorem Group.Cuts.of_ends {l : List UInt8} {g : Group} {left right : UInt8} (h : Encoded l)
    (hopen : l[g.start - 1]? = some left) (hclose : l[g.stop]? = some right)
    (hleft : left < 0x80) (hright : right < 0x80) : g.Cuts l := by
  have hstart := (Cut.of_ascii h hopen hleft).2
  rw [Nat.sub_add_cancel g.start_pos] at hstart
  have hstop := Cut.of_ascii h hclose hright
  exact ⟨hstart, hstop.1, hstop.2⟩

theorem Group.Cuts.content {l : List UInt8} {g : Group} (hg : g.Cuts l) :
    Encoded (g.content l) ∧ ∀ {n}, Cut (g.content l) n → Cut l (g.start + n) := by
  have hsplit : l.drop g.start = g.content l ++ l.drop g.stop := Cut.split l g.start_le_stop
  refine ⟨hg.start.between hg.stop g.start_le_stop, fun {n} hn => hg.start.add ⟨?_, ?_⟩⟩
  · rw [hsplit, List.length_append]
    exact Nat.le_trans hn.le_length (Nat.le_add_right _ _)
  · rw [hsplit, List.drop_append_of_le_length hn.le_length]
    exact hn.encoded.append hg.stop.encoded

theorem braced_cuts {l : List UInt8} {g : Group} (h : Encoded l) (hg : braced l = some g) :
    g.Cuts l :=
  Group.Cuts.of_ends h (delimited_ends hg).1 (delimited_ends hg).2 (by decide) (by decide)

theorem bracketed_cuts {l : List UInt8} {g : Group} (h : Encoded l)
    (hg : bracketed l = some g) : g.Cuts l :=
  Group.Cuts.of_ends h (delimited_ends hg).1 (delimited_ends hg).2 (by decide) (by decide)

theorem verbArgument_cuts {l : List UInt8} {g : Group} (h : Encoded l)
    (hg : verbArgument l = some g) : g.Cuts l := by
  obtain ⟨delimiter, hgraphic, hopen, hclose⟩ := verbArgument_ends hg
  have hascii := lt_of_isGraphic hgraphic
  exact Group.Cuts.of_ends h hopen hclose hascii hascii

theorem cut_optionsWidth {l : List UInt8} (h : Encoded l) : Cut l (optionsWidth l) := by
  fun_induction optionsWidth l with
  | case1 => exact Cut.zero h
  | case2 l g found ih =>
      have hcut := (bracketed_cuts h found).width
      exact hcut.add (ih hcut.encoded)

end LatexOrigins.Markup
