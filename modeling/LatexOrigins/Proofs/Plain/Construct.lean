import LatexOrigins.Plain.Block
import LatexOrigins.Proofs.Markup.Cut

/-!
# Constructs

What stands at the front of an encoded text takes up a cut, and what it leaves
behind lies inside it: a copy between two cuts of one of three kinds, or a known
text in place of a stretch that is not empty. There is one lemma for each form of
markup, and `front_sound` assembles them.
-/

namespace LatexOrigins.Plain

open Markup
open Text (Encoded)

/-- The texts that stand for markup whatever the options are. -/
def fixedTexts : List String := [" ", "...", "LaTeX", "TeX"]

def placeholders (options : Options) : List String :=
  [options.mathPlaceholder, options.referencePlaceholder, options.citationPlaceholder]

def replacements (options : Options) : List String := fixedTexts ++ placeholders options

/-- What may be copied of what stands at the front. -/
inductive Copyable (l : List UInt8) : Nat → Nat → Prop where
  | plain {width : Nat} (h : ∀ b ∈ l.take width, isSpecial b = false) : Copyable l 0 width
  | escape {b : UInt8} (hback : l[0]? = some backslash) (hsymbol : l[1]? = some b)
      (hb : b ∈ escapable) : Copyable l 1 2
  | verb {g : Group} (hword : Text.bytes "\\verb" <+: l)
      (hg : verbArgument (l.drop 5) = some g) : Copyable l (5 + g.start) (5 + g.stop)

inductive Residue.Sound (options : Options) (l : List UInt8) (width : Nat) : Residue → Prop where
  | nothing : Residue.Sound options l width .nothing
  | copy {start stop : Nat} (hstart : Cut l start) (hstop : Cut l stop) (hle : start ≤ stop)
      (hwidth : stop ≤ width) (h : Copyable l start stop) :
      Residue.Sound options l width (.copy start stop)
  | replace {text : String} {stop : Nat} (hpos : 0 < stop) (hstop : Cut l stop)
      (hwidth : stop ≤ width) (h : text ∈ replacements options) :
      Residue.Sound options l width (.replace text stop)

/-- A construct at the front of a byte sequence takes up a cut of it. -/
structure Construct.Sound (options : Options) (l : List UInt8) (c : Construct) : Prop where
  cut : Cut l c.width
  residue : c.residue.Sound options l c.width

variable {options : Options} {l : List UInt8}

namespace Construct

theorem Sound.nothing {width : Nat} (h : Cut l width) : Sound options l ⟨.nothing, width⟩ :=
  ⟨h, Residue.Sound.nothing⟩

theorem Sound.replace {text : String} {width : Nat} (h : Cut l width) (hpos : 0 < width)
    (htext : text ∈ replacements options) : Sound options l ⟨.replace text width, width⟩ :=
  ⟨h, Residue.Sound.replace hpos h (Nat.le_refl _) htext⟩

end Construct

/-! ## Widths -/

theorem cut_argumentsWidth (count : Nat) (h : Encoded l) : Cut l (argumentsWidth count l) := by
  induction count generalizing l with
  | zero =>
      rw [argumentsWidth]
      exact Cut.zero h
  | succ count ih =>
      rw [argumentsWidth]
      have hoptions := cut_optionsWidth h
      simp only
      split
      · exact Cut.zero h
      · next g hg =>
        have hwidth := hoptions.add (braced_cuts hoptions.encoded hg).width
        exact hwidth.add (ih hwidth.encoded)

theorem cut_starredArgumentsWidth (count : Nat) (h : Encoded l) :
    Cut l (starredArgumentsWidth count l) := by
  have hstar := cut_starWidth h
  exact hstar.add (cut_argumentsWidth count hstar.encoded)

theorem cut_withGroup {name : Nat} {group : Option Group} (h : Cut l name)
    (hgroup : ∀ g, group = some g → Cut (l.drop name) g.width) : Cut l (withGroup name group) := by
  unfold withGroup
  split
  · next g => exact h.add (hgroup g rfl)
  · exact h

theorem cut_environmentWidth {name : List UInt8} {lead : Nat} (h : Cut l lead) :
    Cut l (environmentWidth name lead l) := by
  unfold environmentWidth
  split
  · next n hn =>
    rw [Nat.add_assoc]
    exact h.add (Cut.behind h.encoded (indexOf?_eq_some hn) (by decide))
  · exact h.add (Cut.length _)

/-! ## Forms of markup -/

theorem formula_sound {lead : Nat} (close : List UInt8) {b : UInt8} (h : Cut l lead)
    (hpos : 0 < lead) (hb : b < 0x80) :
    (formula options lead (close ++ [b]) l).Sound options l := by
  unfold formula
  split
  · next n hn =>
    have hcut : Cut l (lead + n + (close ++ [b]).length) := by
      rw [Nat.add_assoc]
      exact h.add (Cut.behind h.encoded (unescapedIndexOf?_eq_some hn) hb)
    exact Construct.Sound.replace hcut (by omega) (by simp [replacements, placeholders])
  · exact Construct.Sound.nothing h

theorem environment_sound {name : Nat} (h : Cut l name) (hpos : 0 < name) :
    (environment options name l).Sound options l := by
  unfold environment
  split
  · exact Construct.Sound.nothing h
  · next g hg =>
    have hlead := h.add (braced_cuts h.encoded hg).width
    simp only
    split
    · exact Construct.Sound.nothing (cut_environmentWidth hlead)
    · split
      · apply Construct.Sound.replace (cut_environmentWidth hlead)
        · unfold environmentWidth
          split <;> omega
        · simp [replacements, placeholders]
      · have hoptions := hlead.add (cut_optionsWidth hlead.encoded)
        exact Construct.Sound.nothing (hoptions.add (cut_starredArgumentsWidth _ hoptions.encoded))

theorem placeholder_sound {text : String} {name : Nat} (h : Cut l name) (hpos : 0 < name)
    (htext : text ∈ replacements options) : (placeholder text name l).Sound options l := by
  have hcut := h.add (cut_starredArgumentsWidth 1 h.encoded)
  unfold placeholder
  simp only
  split
  · exact Construct.Sound.replace hcut (by omega) htext
  · exact Construct.Sound.nothing hcut

theorem verb_sound {g : Group} (hname : Cut l 5) (hword : Text.bytes "\\verb" <+: l)
    (hg : verbArgument (l.drop 5) = some g) :
    (⟨.copy (5 + g.start) (5 + g.stop), 5 + g.width⟩ : Construct).Sound options l := by
  have hcuts := verbArgument_cuts hname.encoded hg
  have hle := g.start_le_stop
  refine ⟨hname.add hcuts.width, ?_⟩
  apply Residue.Sound.copy (hname.add hcuts.start) (hname.add hcuts.stop)
  · omega
  · simp only [Group.width]
    omega
  · exact Copyable.verb hword hg

theorem controlWord_sound {word : List UInt8}
    (hword : backslash :: word <+: l) (hname : Cut l (1 + word.length)) :
    (controlWord options word (1 + word.length) l).Sound options l := by
  have hpos : 0 < 1 + word.length := by omega
  have hbehind := hname.encoded
  have hbraced : Cut l (withGroup (1 + word.length) (braced (l.drop (1 + word.length)))) :=
    cut_withGroup hname fun g hg => (braced_cuts hbehind hg).width
  have hbracketed : Cut l (withGroup (1 + word.length) (bracketed (l.drop (1 + word.length)))) :=
    cut_withGroup hname fun g hg => (bracketed_cuts hbehind hg).width
  unfold controlWord
  simp only
  by_cases hbegin : spells word "begin" = true
  · rw [if_pos hbegin]
    exact environment_sound hname hpos
  rw [if_neg hbegin]
  by_cases hend : spells word "end" = true
  · rw [if_pos hend]
    exact Construct.Sound.nothing hbraced
  rw [if_neg hend]
  by_cases hdots : (spells word "ldots" || spells word "dots") = true
  · rw [if_pos hdots]
    exact Construct.Sound.replace hname hpos (by simp [replacements, fixedTexts])
  rw [if_neg hdots]
  by_cases hlatex : spells word "LaTeX" = true
  · rw [if_pos hlatex]
    exact Construct.Sound.replace hname hpos (by simp [replacements, fixedTexts])
  rw [if_neg hlatex]
  by_cases htex : spells word "TeX" = true
  · rw [if_pos htex]
    exact Construct.Sound.replace hname hpos (by simp [replacements, fixedTexts])
  rw [if_neg htex]
  by_cases hverb : spells word "verb" = true
  · rw [if_pos hverb]
    obtain rfl : Text.bytes "verb" = word := by simpa [spells] using hverb
    split
    · next g hg => exact verb_sound hname hword hg
    · exact Construct.Sound.nothing hname
  rw [if_neg hverb]
  by_cases hitem : spells word "item" = true
  · rw [if_pos hitem]
    exact Construct.Sound.nothing hbracketed
  rw [if_neg hitem]
  split
  · exact placeholder_sound hname hpos (by simp [replacements, placeholders])
  split
  · exact placeholder_sound hname hpos (by simp [replacements, placeholders])
  split
  · exact Construct.Sound.nothing (hname.add (cut_starredArgumentsWidth _ hbehind))
  · exact Construct.Sound.nothing (hname.add (cut_starWidth hbehind))

theorem lt_of_mem_escapable {b : UInt8} (h : b ∈ escapable) : b < 0x80 := by
  have hall : ∀ b ∈ escapable, b < 0x80 := by decide +kernel
  exact hall b h

theorem lt_of_mem_spacing {b : UInt8} (h : b ∈ spacing) : b < 0x80 := by
  have hall : ∀ b ∈ spacing, b < 0x80 := by decide +kernel
  exact hall b h

theorem lt_of_isSpecial {b : UInt8} (h : isSpecial b = true) : b < 0x80 := by
  simp only [isSpecial, Bool.or_eq_true, decide_eq_true_eq] at h
  rcases h with ((((rfl | rfl) | rfl) | rfl) | rfl) | rfl <;> decide

theorem controlSymbol_sound {rest : List UInt8} (h : Encoded (backslash :: rest)) :
    (controlSymbol options rest (backslash :: rest)).Sound options (backslash :: rest) := by
  have hback : Cut (backslash :: rest) 1 := (Cut.of_ascii h (n := 0) rfl (by decide)).2
  cases rest with
  | nil => exact Construct.Sound.nothing hback
  | cons b rest =>
      have htwo (hb : b < 0x80) : Cut (backslash :: b :: rest) 2 :=
        (Cut.of_ascii h (n := 1) rfl hb).2
      unfold controlSymbol
      simp only
      split
      · next hb =>
        have hcut := htwo (hb ▸ by decide)
        refine ⟨cut_withGroup hcut fun g hg => (bracketed_cuts hcut.encoded hg).width, ?_⟩
        apply Residue.Sound.replace (by omega) hcut
        · simp only [withGroup]
          split <;> omega
        · simp [replacements, fixedTexts]
      split
      · next hb =>
        have hmem : b ∈ escapable := by simpa using hb
        have hcut := htwo (lt_of_mem_escapable hmem)
        exact ⟨hcut, Residue.Sound.copy hback hcut (by omega) (Nat.le_refl _)
          (Copyable.escape rfl rfl hmem)⟩
      split
      · next hb => exact formula_sound [backslash] (htwo (hb ▸ by decide)) (by omega) (by decide)
      split
      · next hb => exact formula_sound [backslash] (htwo (hb ▸ by decide)) (by omega) (by decide)
      split
      · next hb =>
        have hmem : b ∈ spacing := by simpa using hb
        exact Construct.Sound.replace (htwo (lt_of_mem_spacing hmem)) (by omega)
          (by simp [replacements, fixedTexts])
      · exact Construct.Sound.nothing (hback.add (cut_charWidth hback.encoded))

theorem construct_sound {b : UInt8} {rest : List UInt8} (h : Encoded (b :: rest))
    (hb : isSpecial b = true) :
    (construct options b rest (b :: rest)).Sound options (b :: rest) := by
  have hone : Cut (b :: rest) 1 := (Cut.of_ascii h (n := 0) rfl (lt_of_isSpecial hb)).2
  unfold construct
  split
  · next hback =>
    subst hback
    simp only
    split
    · exact controlSymbol_sound h
    · have hword := cut_wordWidth hone.encoded
      have hlength : (rest.take (wordWidth rest)).length = wordWidth rest :=
        List.length_take_of_le hword.le_length
      apply controlWord_sound
      · exact List.cons_prefix_cons.2 ⟨rfl, List.take_prefix _ _⟩
      · rw [hlength]
        exact hone.add hword
  split
  · exact Construct.Sound.replace hone (by omega) (by simp [replacements, fixedTexts])
  split
  · split
    · next hdollar =>
      rw [List.head?_eq_getElem?] at hdollar
      have htwo : Cut (b :: rest) 2 := (Cut.of_ascii h (n := 1) hdollar (by decide)).2
      exact formula_sound [dollar] htwo (by omega) (by decide)
    · exact formula_sound [] hone (by omega) (by decide)
  split
  · exact Construct.Sound.nothing (cut_restOfLine h)
  · exact Construct.Sound.nothing hone

/-- What stands at the front of an encoded text takes up a cut, and what it
leaves behind lies inside it. -/
theorem front_sound (options : Options) {b : UInt8} {rest : List UInt8}
    (h : Encoded (b :: rest)) : (front options b rest).Sound options (b :: rest) := by
  unfold front
  simp only
  split
  · next hb => exact construct_sound h hb
  · have hcut : Cut (b :: rest) (spanLength (fun c => !isSpecial c) (b :: rest)) := by
      refine ⟨spanLength_le _ _, ?_⟩
      apply h.drop_span
      intro c hc
      exact Text.isContinuation_of_ascii (lt_of_isSpecial (by simpa using hc))
    refine ⟨hcut, Residue.Sound.copy (Cut.zero h) hcut (Nat.zero_le _) (Nat.le_refl _) ?_⟩
    apply Copyable.plain
    intro c hc
    rw [spanLength, ← List.prefix_iff_eq_take.1 (List.takeWhile_prefix _)] at hc
    simpa using List.all_eq_true.1 List.all_takeWhile c hc

end LatexOrigins.Plain
