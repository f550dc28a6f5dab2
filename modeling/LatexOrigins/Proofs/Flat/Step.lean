import LatexOrigins.Flat.Move
import LatexOrigins.Proofs.Markup.Trimmed

/-!
# What a step finds

Every step of the scan of an encoded content finds one of six things, and in each
case its ends are cuts of what is left. A command that the step passes over ends
in a byte that is no blank, and so does what stands before the argument that an
unwrapped command keeps: such a place is never behind the indentation of a line.
-/

namespace LatexOrigins.Markup

open Text (Encoded)

/-- The last of the bytes that are taken off is no blank. -/
def Solid (l : List UInt8) (n : Nat) : Prop :=
  ∃ k b, n = k + 1 ∧ l[k]? = some b ∧ isInlineBlank b = false

variable {l : List UInt8} {n m : Nat}

theorem Solid.of_byte {b : UInt8} (h : l[n]? = some b) (hb : isInlineBlank b = false) :
    Solid l (n + 1) :=
  ⟨n, b, rfl, h, hb⟩

theorem Solid.of_drop (h : Solid (l.drop n) m) : Solid l (n + m) := by
  obtain ⟨k, b, rfl, hk, hb⟩ := h
  rw [List.getElem?_drop] at hk
  exact ⟨n + k, b, rfl, hk, hb⟩

theorem Solid.add (h : Solid l n) (hm : m = 0 ∨ Solid (l.drop n) m) : Solid l (n + m) := by
  rcases hm with rfl | hm
  · exact h
  · exact hm.of_drop

theorem not_inlineBlank_of_isGraphic {b : UInt8} (h : isGraphic b = true) :
    isInlineBlank b = false := by
  simp only [isGraphic, Bool.and_eq_true, decide_eq_true_eq] at h
  rw [← Bool.not_eq_true]
  intro hblank
  simp only [isInlineBlank, Bool.or_eq_true, decide_eq_true_eq] at hblank
  rcases hblank with rfl | rfl
  · exact absurd h.1 (by decide)
  · exact absurd h.1 (by decide)

theorem isGraphic_of_isLetter {b : UInt8} (h : isLetter b = true) : isGraphic b = true := by
  simp only [isLetter, Bool.or_eq_true, Bool.and_eq_true, decide_eq_true_eq] at h
  simp only [isGraphic, Bool.and_eq_true, decide_eq_true_eq]
  rcases h with ⟨hlow, hhigh⟩ | ⟨hlow, hhigh⟩
  · exact ⟨UInt8.le_trans (by decide) hlow, UInt8.le_trans hhigh (by decide)⟩
  · exact ⟨UInt8.le_trans (by decide) hlow, UInt8.le_trans hhigh (by decide)⟩

theorem solid_span {test : UInt8 → Bool} (htest : ∀ b, test b = true → isInlineBlank b = false) :
    spanLength test l = 0 ∨ Solid l (spanLength test l) := by
  induction l with
  | nil => exact Or.inl rfl
  | cons b rest ih =>
      by_cases hb : test b = true
      · have hspan : spanLength test (b :: rest) = 1 + spanLength test rest := by
          rw [spanLength, List.takeWhile_cons_of_pos hb, List.length_cons, Nat.add_comm, spanLength]
        rw [hspan]
        exact Or.inr ((Solid.of_byte rfl (htest b hb)).add ih)
      · rw [spanLength, List.takeWhile_cons_of_neg hb]
        exact Or.inl rfl

/-! ## Commands and their arguments -/

theorem solid_starWidth (l : List UInt8) : starWidth l = 0 ∨ Solid l (starWidth l) := by
  unfold starWidth
  split
  · next hstar =>
    rw [List.head?_eq_getElem?] at hstar
    exact Or.inr (Solid.of_byte hstar (by decide))
  · exact Or.inl rfl

theorem Group.solid_start {g : Group} {b : UInt8} (h : l[g.start - 1]? = some b)
    (hb : isInlineBlank b = false) : Solid l g.start := by
  have hsolid := Solid.of_byte h hb
  rwa [Nat.sub_add_cancel g.start_pos] at hsolid

theorem Group.solid_width {g : Group} {b : UInt8} (h : l[g.stop]? = some b)
    (hb : isInlineBlank b = false) : Solid l g.width :=
  Solid.of_byte h hb

theorem braced_solid {g : Group} (h : braced l = some g) : Solid l g.start ∧ Solid l g.width :=
  ⟨Group.solid_start (delimited_ends h).1 (by decide),
    Group.solid_width (delimited_ends h).2 (by decide)⟩

theorem verbArgument_solid {g : Group} (h : verbArgument l = some g) : Solid l g.width := by
  obtain ⟨delimiter, hgraphic, -, hclose⟩ := verbArgument_ends h
  exact Group.solid_width hclose (not_inlineBlank_of_isGraphic hgraphic)

theorem solid_optionsWidth (l : List UInt8) : optionsWidth l = 0 ∨ Solid l (optionsWidth l) := by
  fun_induction optionsWidth l with
  | case1 => exact Or.inl rfl
  | case2 l g found ih =>
      exact Or.inr ((Group.solid_width (delimited_ends found).2 (by decide)).add ih)

end LatexOrigins.Markup

namespace LatexOrigins.Flat

open Markup
open Text (Encoded)

variable {options : Options} {before l : List UInt8} {room : Nat}

/-- The bounds of an argument that an unwrapped command of some width keeps. -/
structure Kept (l : List UInt8) (width : Nat) (bounds : Nat × Nat) : Prop where
  start : Cut l bounds.1
  stop : Cut l bounds.2
  start_le_stop : bounds.1 ≤ bounds.2
  stop_lt : bounds.2 < width
  solid : Solid l bounds.1

theorem Kept.behind {n width : Nat} {bounds : Nat × Nat} (hn : Cut l n)
    (h : Kept (l.drop n) width bounds) : Kept l (n + width) (n + bounds.1, n + bounds.2) where
  start := hn.add h.start
  stop := hn.add h.stop
  start_le_stop := Nat.add_le_add_left h.start_le_stop n
  stop_lt := Nat.add_lt_add_left h.stop_lt n
  solid := h.solid.of_drop

theorem Kept.mono {width wider : Nat} {bounds : Nat × Nat} (h : Kept l width bounds)
    (hle : width ≤ wider) : Kept l wider bounds :=
  { h with stop_lt := Nat.lt_of_lt_of_le h.stop_lt hle }

theorem ruleArguments_spec (keep : Option Nat) (index remaining : Nat) (h : Encoded l) :
    Cut l (ruleArguments keep index remaining l).2 ∧
      ((ruleArguments keep index remaining l).2 = 0 ∨
        Solid l (ruleArguments keep index remaining l).2) ∧
      ∀ bounds, (ruleArguments keep index remaining l).1 = some bounds →
        Kept l (ruleArguments keep index remaining l).2 bounds := by
  induction remaining generalizing index l with
  | zero =>
      refine ⟨Cut.zero h, Or.inl rfl, ?_⟩
      intro bounds hbounds
      cases hbounds
  | succ remaining ih =>
      have hoptions := cut_optionsWidth h
      have hsolid := solid_optionsWidth l
      cases hg : braced (l.drop (optionsWidth l)) with
      | none =>
          simp only [ruleArguments, hg]
          refine ⟨hoptions, hsolid, ?_⟩
          intro bounds hbounds
          cases hbounds
      | some g =>
          have hcuts := braced_cuts hoptions.encoded hg
          have hgroup := braced_solid hg
          have hwidth := hoptions.add hcuts.width
          obtain ⟨hcut, hrest, hkept⟩ := ih (index + 1) hwidth.encoded
          simp only [ruleArguments, hg]
          refine ⟨hwidth.add hcut, Or.inr (hgroup.2.of_drop.add hrest), ?_⟩
          intro bounds hbounds
          split at hbounds
          · obtain rfl := Option.some.inj hbounds
            have hinner : Kept (l.drop (optionsWidth l)) g.width (g.start, g.stop) :=
              ⟨hcuts.start, hcuts.stop, g.start_le_stop, Nat.lt_succ_self _, hgroup.1⟩
            exact (hinner.behind hoptions).mono (Nat.le_add_right _ _)
          · obtain ⟨inner, hinner, rfl⟩ := Option.map_eq_some_iff.1 hbounds
            exact (hkept inner hinner).behind hwidth

/-! ## Lines -/

/-- The width of the line at the front with its break. -/
def lineWidth (l : List UInt8) : Nat := min ((restOfLine l).length + 1) l.length

theorem lineBreak_of_restOfLine_lt (h : (restOfLine l).length < l.length) :
    l[(restOfLine l).length]? = some lineBreak := by
  have hbyte : l[spanLength (fun b => decide (b ≠ lineBreak)) l]? = some _ :=
    List.getElem?_eq_getElem h
  have hbreak := Text.test_of_getElem?_spanLength hbyte
  rw [decide_eq_false_iff_not, Decidable.not_not] at hbreak
  rw [← hbreak]
  exact List.getElem?_eq_getElem h

theorem getElem?_reverse_take {n k : Nat} (hn : n ≤ l.length) (hk : k < n) :
    (l.take n).reverse[k]? = l[n - 1 - k]? := by
  have hlength : (l.take n).length = n := List.length_take_of_le hn
  rw [List.getElem?_reverse (by omega), hlength, List.getElem?_take_of_lt (by omega)]

theorem cut_lineStart {n : Nat} (h : Encoded l) (hn : n ≤ l.length) :
    Cut l (n - (restOfLine (l.take n).reverse).length) := by
  have hlength : (l.take n).reverse.length = n := by
    rw [List.length_reverse, List.length_take_of_le hn]
  by_cases hlt : (restOfLine (l.take n).reverse).length < n
  · -- Just before the line stands the break of the line before it.
    have hbreak := lineBreak_of_restOfLine_lt (l := (l.take n).reverse) (by omega)
    rw [getElem?_reverse_take hn hlt] at hbreak
    have hcut := (Cut.of_ascii h hbreak (by decide)).2
    rwa [Nat.sub_right_comm, Nat.sub_add_cancel (by omega)] at hcut
  · rw [Nat.sub_eq_zero_of_le (Nat.not_lt.1 hlt)]
    exact Cut.zero h

theorem cut_lineWidth (h : Encoded l) : Cut l (lineWidth l) := by
  unfold lineWidth
  by_cases hlt : (restOfLine l).length < l.length
  · rw [Nat.min_eq_left hlt]
    exact (Cut.of_ascii h (lineBreak_of_restOfLine_lt hlt) (by decide)).2
  · rw [Nat.min_eq_right (by omega)]
    exact Cut.length l

theorem lineWidth_of_lt (h : lineWidth l < l.length) :
    lineWidth l = (restOfLine l).length + 1 := by
  unfold lineWidth at h ⊢
  omega

theorem lineBreak_of_lineWidth_lt (h : lineWidth l < l.length) :
    l[lineWidth l - 1]? = some lineBreak := by
  have hwidth := lineWidth_of_lt h
  rw [hwidth, Nat.add_sub_cancel]
  exact lineBreak_of_restOfLine_lt (by omega)

theorem solid_lineWidth (h : lineWidth l < l.length) : Solid l (lineWidth l) := by
  have hwidth := lineWidth_of_lt h
  have hsolid := Solid.of_byte (lineBreak_of_lineWidth_lt h) (by decide)
  rwa [Nat.sub_add_cancel (by omega)] at hsolid

theorem pausedWidth_spec (marker : List UInt8) (h : Encoded l) :
    Cut l (pausedWidth marker l) ∧
      (pausedWidth marker l < l.length → Solid l (pausedWidth marker l)) := by
  fun_induction pausedWidth marker l with
  | case1 => exact ⟨Cut.zero h, fun hlt => absurd hlt (Nat.not_lt_zero _)⟩
  | case2 l _ line whole _ =>
      exact ⟨cut_lineWidth h, solid_lineWidth⟩
  | case3 l _ line whole _ ih =>
      have hwhole : Cut l whole := cut_lineWidth h
      obtain ⟨hcut, hsolid⟩ := ih hwhole.encoded
      refine ⟨hwhole.add hcut, fun hlt => ?_⟩
      rw [List.length_drop] at hsolid
      exact (hsolid (by omega)).of_drop

/-! ## Comments -/

/-- What a comment at the front is: it runs to the end of its line, or it takes the
line with its break along, and the paused region that it may begin. -/
inductive CommentAt (options : Options) (before l : List UInt8) : Option Nat → Nat → Prop where
  | trailing (h : ¬ (restOfLine before).all isInlineBlank = true) :
      CommentAt options before l none (restOfLine l).length
  | alone (h : (restOfLine before).all isInlineBlank = true)
      (hmarker : ¬ Text.bytes options.pauseMarker <+: restOfLine l) :
      CommentAt options before l (some (restOfLine before).length) (lineWidth l)
  | pause (h : (restOfLine before).all isInlineBlank = true)
      (hmarker : Text.bytes options.pauseMarker <+: restOfLine l) :
      CommentAt options before l (some (restOfLine before).length)
        (lineWidth l + pausedWidth (Text.bytes options.continueMarker) (l.drop (lineWidth l)))

theorem exists_commentAt (options : Options) (before l : List UInt8) :
    ∃ indentation width, commentStep options before l = .comment indentation width ∧
      CommentAt options before l indentation width := by
  unfold commentStep
  simp only
  split
  · next hblank =>
    split
    · next hmarker =>
      exact ⟨_, _, rfl, CommentAt.pause hblank (List.isPrefixOf_iff_prefix.1 hmarker)⟩
    · next hmarker =>
      rw [List.isPrefixOf_iff_prefix] at hmarker
      exact ⟨_, _, rfl, CommentAt.alone hblank hmarker⟩
  · next hblank => exact ⟨_, _, rfl, CommentAt.trailing hblank⟩

namespace CommentAt

variable {indentation : Option Nat} {width : Nat}

theorem cut (hc : CommentAt options before l indentation width) (h : Encoded l) : Cut l width := by
  cases hc with
  | trailing => exact cut_restOfLine h
  | alone => exact cut_lineWidth h
  | pause =>
      have hline := cut_lineWidth h
      exact hline.add (pausedWidth_spec _ hline.encoded).1

/-- Behind a comment that stands alone a line starts, if anything is left. -/
theorem solid {n : Nat} (hc : CommentAt options before l (some n) width) (h : Encoded l)
    (hlt : width < l.length) : Solid l width := by
  cases hc with
  | alone => exact solid_lineWidth hlt
  | pause =>
      have hpaused := (pausedWidth_spec (Text.bytes options.continueMarker)
        (cut_lineWidth h).encoded).2
      rw [List.length_drop] at hpaused
      exact (hpaused (by omega)).of_drop

end CommentAt

/-! ## Steps -/

/-- What a step finds at the front. -/
inductive Found (options : Options) (before l : List UInt8) (room : Nat) : Step → Prop where
  /-- Bytes that mean nothing, up to the next that may. -/
  | run {b : UInt8} (hb : l[0]? = some b) (hplain : isPlain b = true) :
      Found options before l room (.keep (min (spanLength isPlain l) room))
  /-- A backslash and the character behind it. -/
  | symbol (hback : l[0]? = some backslash) :
      Found options before l room (.keep (1 + charWidth (l.drop 1)))
  /-- A command that stays, or `\verb` with its argument. -/
  | word {width : Nat} (hback : l[0]? = some backslash) (hcut : Cut l width)
      (hsolid : Solid l width) : Found options before l room (.keep width)
  | comment {indentation : Option Nat} {width : Nat} (hpercent : l[0]? = some percent)
      (h : CommentAt options before l indentation width) :
      Found options before l room (.comment indentation (min width room))
  | follow {start stop width : Nat} (hback : l[0]? = some backslash) (hstart : Cut l start)
      (hstop : Cut l stop) (hle : start ≤ stop) (hcut : Cut l width) (hsolid : Solid l width) :
      Found options before l room (.follow start stop width)
  | unwrap {kept : Option (Nat × Nat)} {width : Nat} (hback : l[0]? = some backslash)
      (hcut : Cut l width) (hsolid : Solid l width)
      (hkept : ∀ bounds, kept = some bounds → Kept l width bounds) :
      Found options before l room (.unwrap kept width)

theorem followStep_found {name : Nat} {g : Group} (hback : l[0]? = some backslash)
    (hname : Cut l name) (hg : braced (l.drop name) = some g) :
    Found options before l room (followStep name g l) := by
  have hcuts := braced_cuts hname.encoded hg
  obtain ⟨hencoded, hcontent⟩ := hcuts.content
  have hstart := hname.add (hcontent (Text.cut_leadingBlanks hencoded))
  have hstop := hname.add (hcontent (Text.cut_trim hencoded))
  unfold followStep
  simp only
  rw [← Nat.add_assoc] at hstart
  rw [← Nat.add_assoc, ← Nat.add_assoc] at hstop
  exact Found.follow hback hstart hstop (Nat.le_add_right _ _) (hname.add hcuts.width)
    (braced_solid hg).2.of_drop

theorem followStep_bounds {name start stop width : Nat} {g : Group}
    (h : followStep name g l = .follow start stop width) : start ≤ stop ∧ stop ≤ width := by
  unfold followStep at h
  simp only [Step.follow.injEq] at h
  obtain ⟨rfl, rfl, rfl⟩ := h
  have hle := g.start_le_stop
  have hinner : (g.content (l.drop name)).length ≤ g.stop - g.start := by
    rw [Group.content]
    exact List.length_take_le _ _
  have hstart := (Text.trimStart_suffix (g.content (l.drop name))).length_le
  have htrim : (Text.trim (g.content (l.drop name))).length ≤
      (Text.trimStart (g.content (l.drop name))).length :=
    (Text.trimEnd_prefix _).length_le
  rw [Group.width]
  omega

theorem ruleStep_found (rule : CommandRule) {name : Nat} (hback : l[0]? = some backslash)
    (hname : Cut l name) (hsolid : Solid l name) :
    Found options before l room (ruleStep rule name l) := by
  have hstar := hname.add (cut_starWidth hname.encoded)
  have hlead := hsolid.add (solid_starWidth _)
  obtain ⟨hcut, hrest, hkept⟩ := ruleArguments_spec rule.keep 1 rule.arguments hstar.encoded
  unfold ruleStep
  simp only
  refine Found.unwrap hback (hstar.add hcut) (hlead.add hrest) ?_
  intro bounds hbounds
  obtain ⟨inner, hinner, rfl⟩ := Option.map_eq_some_iff.1 hbounds
  exact (hkept inner hinner).behind hstar

theorem controlStep_found {rest : List UInt8} (h : Encoded (backslash :: rest)) :
    Found options before (backslash :: rest) room
      (controlStep options (backslash :: rest) rest) := by
  have hback : (backslash :: rest)[0]? = some backslash := rfl
  have hsign := (Cut.of_ascii h hback (by decide)).2
  have hlength : (rest.take (wordWidth rest)).length = wordWidth rest :=
    List.length_take_of_le (spanLength_le _ _)
  have hname : Cut (backslash :: rest) (1 + wordWidth rest) :=
    hsign.add (cut_wordWidth hsign.encoded)
  have hsolid : Solid (backslash :: rest) (1 + wordWidth rest) := by
    have hletters := solid_span (l := rest) fun b hb =>
      not_inlineBlank_of_isGraphic (isGraphic_of_isLetter hb)
    exact (Solid.of_byte hback (by decide)).add hletters
  unfold controlStep
  simp only [hlength]
  split
  · exact Found.symbol hback
  · split
    · split
      · next g hg =>
        exact Found.word hback (hname.add (verbArgument_cuts hname.encoded hg).width)
          (verbArgument_solid hg).of_drop
      · exact Found.word hback hname hsolid
    · split
      · next rule _ => exact ruleStep_found rule hback hname hsolid
      · split
        · split
          · next g hg => exact followStep_found hback hname hg
          · exact Found.word hback hname hsolid
        · exact Found.word hback hname hsolid

theorem step_follow_bounds {start stop width : Nat}
    (h : step options before room l = .follow start stop width) : start ≤ stop ∧ stop ≤ width := by
  unfold step at h
  split at h
  · cases h
  · next b rest =>
    split at h
    · obtain ⟨indentation, width, hcomment, -⟩ := exists_commentAt options before (b :: rest)
      rw [hcomment] at h
      cases h
    · split at h
      · unfold controlStep at h
        simp only at h
        split at h
        · cases h
        · split at h
          · split at h <;> cases h
          · split at h
            · cases h
            · split at h
              · split at h
                · exact followStep_bounds h
                · cases h
              · cases h
      · cases h

theorem step_found (options : Options) (before : List UInt8) (room : Nat) (h : Encoded l)
    (hl : l ≠ []) : Found options before l room (step options before room l) := by
  unfold step
  split
  · exact absurd rfl hl
  · next b rest =>
    split
    · next hb =>
      obtain ⟨indentation, width, hstep, hcomment⟩ := exists_commentAt options before (b :: rest)
      rw [hstep]
      exact Found.comment (congrArg some hb) hcomment
    · split
      · next hb =>
        subst hb
        exact controlStep_found h
      · next hpercent hback =>
        refine Found.run rfl ?_
        simp [isPlain, hpercent, hback]

theorem Found.kept {s : Step} {bounds : Nat × Nat} (hs : Found options before l room s)
    (hkept : s.kept = some bounds) : Kept l s.width bounds := by
  cases hs with
  | unwrap _ _ _ h => exact h bounds hkept
  | run | symbol | word | comment | follow => cases hkept

/-- Steps end at cuts, if the range that is scanned does. -/
theorem Found.cut {s : Step} (hs : Found options before l room s) (h : Encoded l)
    (hroom : Cut l room) : Cut l s.width := by
  cases hs with
  | run =>
      have hspan : Cut l (spanLength isPlain l) := by
        refine ⟨spanLength_le _ _, h.drop_span ?_⟩
        intro b hb
        rw [isPlain, Bool.and_eq_false_iff] at hb
        rcases hb with hb | hb
        · obtain rfl : b = backslash := by simpa using hb
          rfl
        · obtain rfl : b = percent := by simpa using hb
          rfl
      rcases Nat.le_total (spanLength isPlain l) room with hle | hle
      · rwa [Step.width, Nat.min_eq_left hle]
      · rwa [Step.width, Nat.min_eq_right hle]
  | symbol hback =>
      have hsign := (Cut.of_ascii h hback (by decide)).2
      exact hsign.add (cut_charWidth hsign.encoded)
  | comment _ hcomment =>
      have hwidth := hcomment.cut h
      rcases Nat.le_total _ room with hle | hle
      · rwa [Step.width, Nat.min_eq_left hle]
      · rwa [Step.width, Nat.min_eq_right hle]
  | word _ hcut | follow _ _ _ _ hcut | unwrap _ hcut => exact hcut

/-! ## Rules that keep nothing -/

/-- None of the arguments that a command of the rule takes stays. -/
def KeepsNone (rule : CommandRule) : Prop :=
  ∀ index ∈ rule.keep, index = 0 ∨ rule.arguments < index

theorem ruleArguments_none {keep : Option Nat} {index remaining : Nat} (l : List UInt8)
    (h : ∀ kept ∈ keep, kept < index ∨ index + remaining ≤ kept) :
    (ruleArguments keep index remaining l).1 = none := by
  induction remaining generalizing index l with
  | zero => rfl
  | succ remaining ih =>
      unfold ruleArguments
      simp only
      split
      · rfl
      · have hindex : keep ≠ some index := by
          intro hkeep
          have hkept := h index hkeep
          omega
        have hrest : ∀ kept ∈ keep, kept < index + 1 ∨ index + 1 + remaining ≤ kept := by
          intro kept hkept
          have hout := h kept hkept
          omega
        rw [if_neg hindex, ih _ hrest]
        rfl

theorem ruleStep_kept {rule : CommandRule} (h : KeepsNone rule) (name : Nat) (l : List UInt8) :
    (ruleStep rule name l).kept = none := by
  have hout : ∀ kept ∈ rule.keep, kept < 1 ∨ 1 + rule.arguments ≤ kept := by
    intro kept hkept
    have hout := h kept hkept
    omega
  unfold ruleStep
  simp only [Step.kept, ruleArguments_none _ hout, Option.map_none]

theorem step_kept_eq_none (hrules : ∀ rule ∈ options.commandRules, KeepsNone rule)
    (before : List UInt8) (room : Nat) (l : List UInt8) :
    (step options before room l).kept = none := by
  unfold step
  split
  · rfl
  · next b rest =>
    split
    · obtain ⟨indentation, width, hcomment, -⟩ := exists_commentAt options before (b :: rest)
      rw [hcomment]
      rfl
    · split
      · unfold controlStep
        simp only
        split
        · rfl
        · split
          · split <;> rfl
          · split
            · next rule hrule =>
              exact ruleStep_kept (hrules rule (List.mem_of_find?_eq_some hrule)) _ _
            · split
              · split <;> rfl
              · rfl
      · rfl

end LatexOrigins.Flat
