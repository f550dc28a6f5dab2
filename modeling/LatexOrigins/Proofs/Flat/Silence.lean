import LatexOrigins.Proofs.Flat.Order

/-!
# What a comment silences

From a comment on nothing is emitted up to the end of its line, nor, if it begins a
paused region, up to the end of the next line that continues. This too holds as long
as what is passed over ends within the argument that it stands in: an argument ends at
the brace that matches, which may be one that stands in a comment.
-/

namespace LatexOrigins.Flat

open Markup
open Text (Encoded)

/-- The end of the line in which an offset lies. -/
def lineEnd (bytes : List UInt8) (offset : Nat) : Nat :=
  offset + (restOfLine (bytes.drop offset)).length

def StartsLine (bytes : List UInt8) (offset : Nat) : Prop :=
  offset = 0 ∨ bytes[offset - 1]? = some lineBreak

instance (bytes : List UInt8) (offset : Nat) : Decidable (StartsLine bytes offset) :=
  inferInstanceAs (Decidable (_ ∨ _))

/-- With blanks trimmed, the line that starts at an offset starts with the continue
marker. -/
def ContinuesAt (options : Options) (bytes : List UInt8) (offset : Nat) : Prop :=
  StartsLine bytes offset ∧
    Text.bytes options.continueMarker <+: Text.trimStart (restOfLine (bytes.drop offset))

instance (options : Options) (bytes : List UInt8) (offset : Nat) :
    Decidable (ContinuesAt options bytes offset) :=
  inferInstanceAs (Decidable (_ ∧ _))

/-- A comment at an offset stands alone on its line and starts with the pause marker. -/
def PausesAt (options : Options) (bytes : List UInt8) (offset : Nat) : Prop :=
  Indented bytes offset ∧ Text.bytes options.pauseMarker <+: restOfLine (bytes.drop offset)

instance (options : Options) (bytes : List UInt8) (offset : Nat) :
    Decidable (PausesAt options bytes offset) :=
  inferInstanceAs (Decidable (_ = true ∧ _))

/-- The end of the first line behind an offset that continues, or of everything. -/
def pauseEnd (options : Options) (bytes : List UInt8) (offset : Nat) : Nat :=
  ((List.range' (offset + 1) (bytes.length - offset)).find?
    (ContinuesAt options bytes ·)).elim bytes.length (lineEnd bytes)

/-- An offset lies behind all that a comment silences. -/
structure PastComment (options : Options) (bytes : List UInt8) (comment offset : Nat) : Prop where
  line : lineEnd bytes comment ≤ offset
  pause : PausesAt options bytes comment → pauseEnd options bytes comment ≤ offset

instance (options : Options) (bytes : List UInt8) (comment offset : Nat) :
    Decidable (PastComment options bytes comment offset) :=
  decidable_of_iff (lineEnd bytes comment ≤ offset ∧
      (PausesAt options bytes comment → pauseEnd options bytes comment ≤ offset))
    ⟨fun h => ⟨h.1, h.2⟩, fun h => ⟨h.line, h.pause⟩⟩

variable {options : Options} {content : String} {bytes l : List UInt8}
  {offset limit comment n k : Nat}

theorem PastComment.mono (h : PastComment options bytes comment n) (hle : n ≤ k) :
    PastComment options bytes comment k where
  line := Nat.le_trans h.line hle
  pause hpause := Nat.le_trans (h.pause hpause) hle

/-! ## Lines -/

theorem restOfLine_le_lineWidth (l : List UInt8) : (restOfLine l).length ≤ lineWidth l := by
  have hle := spanLength_le (fun b => decide (b ≠ lineBreak)) l
  exact Nat.le_min.2 ⟨Nat.le_succ _, hle⟩

theorem lineEnd_mono (hle : n ≤ k) : lineEnd bytes n ≤ lineEnd bytes k := by
  refine Nat.le_of_not_lt fun hlt => ?_
  simp only [lineEnd] at hlt
  -- The line at `k` ends in a break, and that would lie within the line at `n`.
  obtain ⟨i, hi⟩ : ∃ i, k + (restOfLine (bytes.drop k)).length = n + i :=
    ⟨k + (restOfLine (bytes.drop k)).length - n, by omega⟩
  have hinside : i < (restOfLine (bytes.drop n)).length := by omega
  obtain ⟨c, hc, hbreak⟩ := exists_byte_of_lt_restOfLine hinside
  rw [← hi, ← List.getElem?_drop] at hc
  have hbyte := lineBreak_of_restOfLine_lt (List.getElem?_eq_some_iff.1 hc).1
  exact hbreak (Option.some.inj (hc.symm.trans hbyte))

theorem startsLine_lineWidth (h : lineWidth l < l.length) : StartsLine l (lineWidth l) :=
  Or.inr (lineBreak_of_lineWidth_lt h)

theorem StartsLine.of_drop (hpos : 0 < k) (h : StartsLine (l.drop n) k) :
    StartsLine l (n + k) := by
  have hbreak := h.resolve_left (Nat.ne_of_gt hpos)
  rw [List.getElem?_drop] at hbreak
  rw [StartsLine, Nat.add_sub_assoc hpos]
  exact Or.inr hbreak

theorem StartsLine.behind (h : StartsLine l n) (hk : StartsLine (l.drop n) k) :
    StartsLine l (n + k) := by
  by_cases hpos : 0 < k
  · exact hk.of_drop hpos
  · obtain rfl : k = 0 := by omega
    exact h

/-- A paused region ends with the text, or not before the end of a line that starts with
the marker. -/
theorem pausedWidth_end (marker l : List UInt8) :
    pausedWidth marker l = l.length ∨ ∃ k, k < l.length ∧ StartsLine l k ∧
      marker <+: Text.trimStart (restOfLine (l.drop k)) ∧
      k + (restOfLine (l.drop k)).length ≤ pausedWidth marker l := by
  fun_induction pausedWidth marker l with
  | case1 => exact Or.inl rfl
  | case2 l hnonempty line whole hmarker =>
      refine Or.inr ⟨0, List.length_pos_iff.2 hnonempty, Or.inl rfl,
        List.isPrefixOf_iff_prefix.1 hmarker, ?_⟩
      rw [Nat.zero_add]
      exact restOfLine_le_lineWidth l
  | case3 l hnonempty line whole hmarker ih =>
      have hwhole : whole = lineWidth l := rfl
      have hle : whole ≤ l.length := Nat.min_le_right _ _
      rw [List.length_drop] at ih
      rcases ih with hend | ⟨k, hk, hstarts, hmarks, hend⟩
      · exact Or.inl (by omega)
      · rw [List.drop_drop] at hmarks hend
        refine Or.inr ⟨whole + k, by omega, ?_, hmarks, by omega⟩
        exact (startsLine_lineWidth (hwhole ▸ by omega)).behind hstarts

theorem lineEnd_le (h : offset ≤ bytes.length) : lineEnd bytes offset ≤ bytes.length := by
  have hle : (restOfLine (bytes.drop offset)).length ≤ (bytes.drop offset).length :=
    spanLength_le _ _
  rw [List.length_drop] at hle
  rw [lineEnd]
  omega

/-! ## Comments -/

theorem pauseEnd_le_length (options : Options) (bytes : List UInt8) (offset : Nat) :
    pauseEnd options bytes offset ≤ bytes.length := by
  unfold pauseEnd
  cases hfind : (List.range' (offset + 1) (bytes.length - offset)).find?
      (ContinuesAt options bytes ·) with
  | none => exact Nat.le_refl _
  | some k =>
      have hk := List.mem_range'_1.1 (List.mem_of_find?_eq_some hfind)
      exact lineEnd_le (by omega)

theorem pauseEnd_le (hlt : offset < k) (hk : k < bytes.length)
    (h : ContinuesAt options bytes k) : pauseEnd options bytes offset ≤ lineEnd bytes k := by
  unfold pauseEnd
  cases hfind : (List.range' (offset + 1) (bytes.length - offset)).find?
      (ContinuesAt options bytes ·) with
  | none =>
      have hnone := List.find?_range'_eq_none.1 hfind k hlt (by omega)
      exact absurd (decide_eq_true h) (by simpa using hnone)
  | some first =>
      refine lineEnd_mono (Nat.le_of_not_lt fun hbefore => ?_)
      have hnone := (List.find?_range'_eq_some.1 hfind).2.2 k hlt hbefore
      exact absurd (decide_eq_true h) (by simpa using hnone)

theorem pauseEnd_le_pausedWidth (options : Options) (h : offset < bytes.length) :
    pauseEnd options bytes offset ≤ offset + (lineWidth (bytes.drop offset) +
      pausedWidth (Text.bytes options.continueMarker)
        ((bytes.drop offset).drop (lineWidth (bytes.drop offset)))) := by
  have hlength : (bytes.drop offset).length = bytes.length - offset := List.length_drop
  have hpos : 0 < lineWidth (bytes.drop offset) := by
    rw [lineWidth]
    omega
  have hinside : lineWidth (bytes.drop offset) ≤ (bytes.drop offset).length :=
    Nat.min_le_right _ _
  rcases pausedWidth_end (Text.bytes options.continueMarker)
      ((bytes.drop offset).drop (lineWidth (bytes.drop offset))) with
    hend | ⟨k, hk, hstarts, hmarks, hend⟩
  · have hall := pauseEnd_le_length options bytes offset
    rw [List.length_drop] at hend
    omega
  · rw [List.length_drop] at hk
    rw [List.drop_drop, List.drop_drop] at hmarks hend
    have hnext := (startsLine_lineWidth (by omega)).behind hstarts
    have hcontinues : ContinuesAt options bytes
        (offset + (lineWidth (bytes.drop offset) + k)) := ⟨hnext.of_drop (by omega), hmarks⟩
    refine Nat.le_trans (pauseEnd_le (by omega) (by omega) hcontinues) ?_
    rw [lineEnd]
    omega

theorem CommentAt.pastComment {indentation : Option Nat} {width : Nat}
    (hlt : offset < bytes.length)
    (h : CommentAt options (bytes.take offset).reverse (bytes.drop offset) indentation width) :
    PastComment options bytes offset (offset + width) := by
  have hline := restOfLine_le_lineWidth (bytes.drop offset)
  cases h with
  | trailing halone => exact ⟨Nat.le_refl _, fun hpause => absurd hpause.1 halone⟩
  | alone _ hmarker =>
      exact ⟨Nat.add_le_add_left hline _, fun hpause => absurd hpause.2 hmarker⟩
  | pause =>
      exact ⟨Nat.add_le_add_left (Nat.le_add_right_of_le hline) _,
        fun _ => pauseEnd_le_pausedWidth options hlt⟩

/-! ## Visits -/

/-- What a comment silences ends before the delimiter that ends the range in which the
comment stands. -/
def CommentsContained (options : Options) (content : String) : Prop :=
  ∀ offset limit, Scanned options (Text.bytes content) offset limit → offset < limit →
    (Text.bytes content)[offset]? = some percent →
    PastComment options (Text.bytes content) offset (limit + 1)

/-- A comment stands in a range, and what the scan of the range emits lies before the
comment or behind all that it silences. -/
structure Silences (options : Options) (content : String) (comment offset limit : Nat) :
    Prop where
  starts : offset ≤ comment
  ends : PastComment options (Text.bytes content) comment (limit + 1)
  emits : ∀ x ∈ offsetsBetween options (Text.bytes content) offset limit, comment ≤ x →
    PastComment options (Text.bytes content) comment x

theorem mem_movesAt_comment {s : Step} {indentation : Option Nat}
    (h : .comment comment indentation ∈ s.movesAt offset) :
    comment = offset ∧ ∃ width, s = .comment indentation width := by
  cases s with
  | comment found width =>
      obtain ⟨rfl, rfl⟩ := Move.comment.inj (List.mem_singleton.1 h)
      exact ⟨rfl, width, rfl⟩
  | keep | follow => cases List.mem_singleton.1 h
  | unwrap => cases h

theorem Scanned.commentAt (h : Scanned options (Text.bytes content) offset limit)
    (hlt : offset < limit) {width : Nat} {indentation : Option Nat}
    (hstep : stepAt options (Text.bytes content) offset limit = .comment indentation width) :
    (Text.bytes content)[offset]? = some percent ∧
      ∃ whole, width = min whole (limit - offset) ∧
        CommentAt options ((Text.bytes content).take offset).reverse
          ((Text.bytes content).drop offset) indentation whole := by
  have hfound := h.found (Text.encoded_bytes content) hlt
  rw [hstep] at hfound
  cases hfound with
  | comment hpercent hcomment =>
      rw [List.getElem?_drop, Nat.add_zero] at hpercent
      exact ⟨hpercent, _, rfl, hcomment⟩

/-- If the range goes on behind a comment, the comment has been passed over whole. -/
theorem Scanned.silent_behind (hsteps : StepsContained options content)
    (h : Scanned options (Text.bytes content) offset limit) (hlt : offset < limit) {width : Nat}
    {indentation : Option Nat}
    (hstep : stepAt options (Text.bytes content) offset limit = .comment indentation width) :
    ∀ x ∈ offsetsBetween options (Text.bytes content) (offset + width) limit,
      PastComment options (Text.bytes content) offset x := by
  intro x hx
  by_cases hgoes : offset + width < limit
  · obtain ⟨-, whole, rfl, hcomment⟩ := h.commentAt hlt hstep
    have hnext := h.next hlt
    rw [hstep] at hnext
    have hbehind := ((hnext.rising hsteps).inside x hx).1
    have hlimit := h.limit_le (Text.encoded_bytes content)
    rw [Step.width] at hbehind
    exact (hcomment.pastComment (by omega)).mono (by omega)
  · rw [offsetsBetween_of_le (Nat.not_lt.1 hgoes)] at hx
    cases hx

/-- Each comment of a scan silences what it should, and an argument that stays is a
range of its own. -/
theorem Scanned.silences (hsteps : StepsContained options content)
    (hcomments : CommentsContained options content)
    (h : Scanned options (Text.bytes content) offset limit) {indentation : Option Nat} :
    .comment comment indentation ∈ movesBetween options (Text.bytes content) offset limit →
      Silences options content comment offset limit := by
  have hencoded := Text.encoded_bytes content
  refine Scanned.induct
    (motive := fun o l => .comment comment indentation ∈
      movesBetween options (Text.bytes content) o l → Silences options content comment o l)
    hencoded (fun _ _ hle hmem => ?_) ?_ h
  · rw [movesBetween_of_le hle] at hmem
    cases hmem
  intro offset limit h hlt ihinner ihnext hmem
  have hfound := h.found hencoded hlt
  have hwidth := hsteps offset limit h hlt
  have hnext := (h.next hlt).rising hsteps
  have hfront := hfound.rising offset fun bounds hkept => (h.inner hlt hkept).rising hsteps
  have hemits := offsetsBetween_of_lt options hlt (h.limit_le hencoded)
  rw [movesBetween_of_lt hlt (h.limit_le hencoded), List.mem_append, List.mem_append] at hmem
  rcases hmem with (hmem | hmem) | hmem
  · obtain ⟨rfl, width, hstep⟩ := mem_movesAt_comment hmem
    obtain ⟨hpercent, -⟩ := h.commentAt hlt hstep
    refine ⟨Nat.le_refl _, hcomments comment limit h hlt hpercent, fun x hx _ => ?_⟩
    rw [hemits, hstep] at hx
    exact h.silent_behind hsteps hlt hstep x hx
  · cases hkept : (stepAt options (Text.bytes content) offset limit).kept with
    | none =>
        rw [hkept] at hmem
        cases hmem
    | some bounds =>
        rw [hkept] at hmem
        have hargument := ihinner bounds hkept hmem
        have hstop := (hfound.kept hkept).stop_lt
        have hstarts := hargument.starts
        refine ⟨by omega, hargument.ends.mono (by omega), fun x hx hcomment => ?_⟩
        rw [hemits, movesAt_of_kept hkept, hkept, Option.elim_some, List.flatMap_nil,
          List.nil_append] at hx
        rcases List.mem_append.1 hx with hx | hx
        · exact hargument.emits x hx hcomment
        · have hbehind := (hnext.inside x hx).1
          exact hargument.ends.mono (by omega)
  · have htail := ihnext hmem
    have hstarts := htail.starts
    refine ⟨by omega, htail.ends, fun x hx hcomment => ?_⟩
    rw [hemits] at hx
    rcases List.mem_append.1 hx with hx | hx
    · have hbefore := (hfront.inside x hx).2
      omega
    · exact htail.emits x hx hcomment

/-- A visit emits nothing of what a comment silences, be it the rest of its line or a
paused region, if no step and no comment runs over the argument that it stands in. -/
theorem expandFile_silent {files : FileSet} {limit : Nat} {opened : List String}
    {flat flat' : Flat} {path : String} (hflat : Aligned flat)
    (h : expandFile files options limit opened flat path = .ok flat')
    (hread : files.read path = .ok content) (hsteps : StepsContained options content)
    (hcomments : CommentsContained options content) {indentation : Option Nat}
    (hcomment : .comment comment indentation ∈ moves options content) :
    ∃ block, flat'.entries = flat.entries ++ block ∧
      ∀ x ∈ offsetsIn (flat.enter path content).2 block, comment ≤ x →
        PastComment options (Text.bytes content) comment x := by
  obtain ⟨block, hblock, hoffsets⟩ := expandFile_contributes hflat h hread
  refine ⟨block, hblock.entries, fun x hx => ?_⟩
  rw [hoffsets] at hx
  exact (Scanned.start.silences hsteps hcomments hcomment).emits x
    ((emitted_sublist options content).mem hx)

/-- A comment and a paused region in an argument that stays. -/
def pausedMain : String :=
  "\\added\x7ba % x\n%%PAUSE-CHECKING\nc\n%%CONTINUE-CHECKING\nd\x7d e"

def pausedFiles : MemoryFiles := .ofList "/" [("main.tex", pausedMain)]

def pausedFlat : Flat where
  text := "a \nd e"
  files := #[⟨"/main.tex", pausedMain⟩]
  origins := (provenances 0 7 9 ++ provenances 0 12 13 ++ provenances 0 52 53 ++
    provenances 0 54 56).toArray

def pausedPlaces : List (Nat × Nat) :=
  [(0, 56), (7, 53), (9, 53), (12, 53), (13, 53), (52, 53), (53, 53), (54, 56), (56, 56)]

theorem covers_pausedPlaces : Covers .standard (Text.bytes pausedMain) pausedPlaces :=
  ⟨by decide +kernel, by decide +kernel⟩

theorem stepsContained_pausedMain : StepsContained .standard pausedMain :=
  StepsContained.of_places covers_pausedPlaces (by decide +kernel)

theorem commentsContained_pausedMain : CommentsContained .standard pausedMain := by
  have hall : ∀ place ∈ pausedPlaces, place.1 < place.2 →
      (Text.bytes pausedMain)[place.1]? = some percent →
        PastComment .standard (Text.bytes pausedMain) place.1 (place.2 + 1) := by
    decide +kernel
  exact fun offset limit h => hall _ (covers_pausedPlaces.mem h)

theorem silent_pausedFlat :
    expandFile pausedFiles.toFileSet .standard 1 [] empty "/main.tex" = .ok pausedFlat ∧
      StepsContained .standard pausedMain ∧ CommentsContained .standard pausedMain ∧
      .comment 13 (some 0) ∈ moves .standard pausedMain ∧
      ∃ block, pausedFlat.entries = empty.entries ++ block ∧
        ∀ x ∈ offsetsIn (empty.enter "/main.tex" pausedMain).2 block, 13 ≤ x →
          PastComment .standard (Text.bytes pausedMain) 13 x := by
  have hexpand :
      expandFile pausedFiles.toFileSet .standard 1 [] empty "/main.tex" = .ok pausedFlat := by
    decide +kernel
  have hread : pausedFiles.toFileSet.read "/main.tex" = .ok pausedMain := by decide +kernel
  have hmem : .comment 13 (some 0) ∈ moves .standard pausedMain := by decide +kernel
  exact ⟨hexpand, stepsContained_pausedMain, commentsContained_pausedMain, hmem,
    expandFile_silent aligned_empty hexpand hread stepsContained_pausedMain
      commentsContained_pausedMain hmem⟩

/-- The first brace that closes stands in a comment. -/
def brokenMain : String := "\\added\x7ba % x \x7d y\nb\x7dc"

def brokenFiles : MemoryFiles := .ofList "/" [("main.tex", brokenMain)]

def brokenFlat : Flat where
  text := "a  y\nb\x7dc"
  files := #[⟨"/main.tex", brokenMain⟩]
  origins := (provenances 0 7 9 ++ provenances 0 14 20).toArray

/-- A comment that runs over the argument it stands in is emitted in part. -/
theorem not_silent_brokenFlat :
    expandFile brokenFiles.toFileSet .standard 1 [] empty "/main.tex" = .ok brokenFlat ∧
      .comment 9 none ∈ moves .standard brokenMain ∧
      ¬ ∃ block, brokenFlat.entries = empty.entries ++ block ∧
        ∀ x ∈ offsetsIn (empty.enter "/main.tex" brokenMain).2 block, 9 ≤ x →
          PastComment .standard (Text.bytes brokenMain) 9 x := by
  refine ⟨by decide +kernel, by decide +kernel, ?_⟩
  rintro ⟨block, hblock, hsilent⟩
  obtain rfl : brokenFlat.entries = block := hblock
  revert hsilent
  decide +kernel

end LatexOrigins.Flat
