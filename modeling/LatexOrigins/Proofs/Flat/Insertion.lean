import LatexOrigins.Proofs.Flat.Silence
import LatexOrigins.Proofs.Markup.Insertion

/-!
# Steps before an inserted line

The scan stands before the end of a line, and a line is inserted behind that end which opens
and closes nothing. A step that ends before the insertion is the same as before. The only step
that may end there and go on now is a comment that pauses the reading up to the end of the
text, where the line is inserted at the very end.
-/

namespace LatexOrigins.Flat

open Markup

variable {options : Options} {before l m rest : List UInt8} {room : Nat}

/-! ## Commands -/

theorem ruleArguments_succ (keep : Option Nat) (index remaining : Nat) (l : List UInt8) :
    (ruleArguments keep index (remaining + 1) l).2 =
      (braced (l.drop (optionsWidth l))).elim (optionsWidth l) fun g =>
        optionsWidth l + g.width + (ruleArguments keep (index + 1) remaining
          (l.drop (optionsWidth l + g.width))).2 := by
  rw [ruleArguments]
  cases braced (l.drop (optionsWidth l)) with
  | none => rfl
  | some g => rfl

theorem ruleArguments_insert (keep : Option Nat) (index remaining : Nat) (hl : EndsLine l)
    (hm : Neutral m)
    (hinside : (ruleArguments keep index remaining (l ++ rest)).2 ≤ l.length) :
    ruleArguments keep index remaining (l ++ (m ++ rest)) =
      ruleArguments keep index remaining (l ++ rest) := by
  induction remaining generalizing index l with
  | zero => rfl
  | succ remaining ih =>
      have hoptions : optionsWidth (l ++ rest) ≤ l.length := by
        rw [ruleArguments_succ] at hinside
        cases hg : braced ((l ++ rest).drop (optionsWidth (l ++ rest))) with
        | none => rwa [hg] at hinside
        | some g =>
            rw [hg, Option.elim_some] at hinside
            omega
      obtain ⟨hsame, hlt⟩ := optionsWidth_insert hl hm hoptions
      have hline := hl.drop hlt
      rw [ruleArguments_succ, List.drop_append_of_le_length hoptions] at hinside
      have hbraced : braced (l.drop (optionsWidth (l ++ rest)) ++ (m ++ rest)) =
          braced (l.drop (optionsWidth (l ++ rest)) ++ rest) := by
        refine delimited_insert hline hm .braces fun g hg => ?_
        rw [braced, hg, Option.elim_some] at hinside
        rw [List.length_drop]
        omega
      rw [ruleArguments, ruleArguments]
      simp only [hsame, List.drop_append_of_le_length hoptions, hbraced]
      cases hg : braced (l.drop (optionsWidth (l ++ rest)) ++ rest) with
      | none => rfl
      | some g =>
          rw [hg, Option.elim_some] at hinside
          have hwidth := Group.width_lt hline .braces hg (by rw [List.length_drop]; omega)
          rw [List.length_drop] at hwidth
          have hends : optionsWidth (l ++ rest) + g.width < l.length := by omega
          rw [List.drop_append_of_le_length (Nat.le_of_lt hends)] at hinside
          simp only [List.drop_append_of_le_length (Nat.le_of_lt hends)]
          rw [ih (index + 1) (hl.drop hends) (by rw [List.length_drop]; omega)]

theorem ruleStep_insert (rule : CommandRule) {name : Nat} (hl : EndsLine l) (hm : Neutral m)
    (hname : name < l.length) (hinside : (ruleStep rule name (l ++ rest)).width ≤ l.length) :
    ruleStep rule name (l ++ (m ++ rest)) = ruleStep rule name (l ++ rest) := by
  have hline := hl.drop hname
  obtain ⟨hstar, hlt⟩ := hline.starWidth_append rest
  have hstar' := (hline.starWidth_append (m ++ rest)).1
  rw [List.length_drop] at hlt
  have hlead : name + starWidth (l.drop name) < l.length := by omega
  unfold ruleStep at hinside ⊢
  simp only [List.drop_append_of_le_length (Nat.le_of_lt hname), hstar, hstar',
    List.drop_append_of_le_length (Nat.le_of_lt hlead), Step.width] at hinside ⊢
  rw [ruleArguments_insert rule.keep 1 rule.arguments (hl.drop hlead) hm
    (by rw [List.length_drop]; omega)]

theorem followStep_append {g : Group} {name : Nat} (hinside : name + g.width ≤ l.length)
    (rest : List UInt8) : followStep name g (l ++ rest) = followStep name g l := by
  rw [Group.width] at hinside
  have hle := g.start_le_stop
  have hname : (l ++ rest).drop name = l.drop name ++ rest :=
    List.drop_append_of_le_length (by omega)
  have hcontent : g.content (l.drop name ++ rest) = g.content (l.drop name) := by
    rw [Group.content, Group.content, List.drop_append_of_le_length, List.take_append_of_le_length]
    · rw [List.length_drop, List.length_drop]
      omega
    · rw [List.length_drop]
      omega
  unfold followStep
  simp only [hname, hcontent]

/-- A word or a symbol ends before the break, and so does the argument of `\verb`. What the
step at a command may run over are arguments. -/
theorem controlStep_insert {r : List UInt8} (hl : EndsLine (backslash :: r)) (hm : Neutral m)
    (hrest : ∀ b ∈ rest.head?, isContinuation b = false)
    (hnext : ∀ b ∈ (m ++ rest).head?, isContinuation b = false)
    (hinside : (∃ width, controlStep options (backslash :: (r ++ rest)) (r ++ rest) = .keep width) ∨
      (controlStep options (backslash :: (r ++ rest)) (r ++ rest)).width ≤
        (backslash :: r).length) :
    controlStep options (backslash :: (r ++ (m ++ rest))) (r ++ (m ++ rest)) =
        controlStep options (backslash :: (r ++ rest)) (r ++ rest) ∧
      (controlStep options (backslash :: (r ++ rest)) (r ++ rest)).width ≤
        (backslash :: r).length := by
  have hr : EndsLine r := hl.of_cons (by decide)
  have hlt : wordWidth r < r.length := (hr.spanLength_append isLetter (by decide) []).2
  have hword (x : List UInt8) : (r ++ x).take (wordWidth (r ++ x)) = r.take (wordWidth r) := by
    have hwidth : wordWidth (r ++ x) = wordWidth r :=
      (hr.spanLength_append isLetter (by decide) x).1
    rw [hwidth, List.take_append_of_le_length (Nat.le_of_lt hlt)]
  have hlength : (r.take (wordWidth r)).length = wordWidth r :=
    List.length_take_of_le (Nat.le_of_lt hlt)
  have hname : 1 + wordWidth r < (backslash :: r).length := by
    rw [List.length_cons]
    omega
  have hdrop (x : List UInt8) : (backslash :: (r ++ x)).drop (1 + wordWidth r) =
      (backslash :: r).drop (1 + wordWidth r) ++ x := by
    rw [← List.cons_append, List.drop_append_of_le_length (Nat.le_of_lt hname)]
  have hbehind := hl.drop hname
  have hleft : ((backslash :: r).drop (1 + wordWidth r)).length =
      (backslash :: r).length - (1 + wordWidth r) := List.length_drop
  unfold controlStep at hinside ⊢
  simp only [hword, hlength, hdrop] at hinside ⊢
  by_cases hempty : r.take (wordWidth r) = []
  · obtain ⟨hchar, hle⟩ := hr.charWidth_append hrest
    simp only [if_pos hempty, hchar, (hr.charWidth_append hnext).1, Step.width, List.length_cons]
    exact ⟨trivial, by omega⟩
  simp only [if_neg hempty] at hinside ⊢
  by_cases hverb : (Text.bytes "verb" == r.take (wordWidth r)) = true
  · obtain ⟨hsame, hle⟩ := hbehind.verbArgument_append rest
    simp only [if_pos hverb, hsame, (hbehind.verbArgument_append (m ++ rest)).1]
    cases hg : verbArgument ((backslash :: r).drop (1 + wordWidth r)) with
    | none => exact ⟨trivial, Nat.le_of_lt hname⟩
    | some g =>
        have hwidth := hle g hg
        simp only [Step.width]
        exact ⟨trivial, by omega⟩
  simp only [if_neg hverb] at hinside ⊢
  cases hfind : options.commandRules.find?
      (fun rule => Text.bytes rule.name == r.take (wordWidth r)) with
  | some rule =>
      rw [hfind] at hinside
      rcases hinside with ⟨width, hkeep⟩ | hinside
      · cases hkeep
      · exact ⟨ruleStep_insert rule hl hm hname hinside, hinside⟩
  | none =>
      rw [hfind] at hinside
      simp only at hinside ⊢
      by_cases hinclude : options.includeCommands.any
          (fun text => Text.bytes text == r.take (wordWidth r)) = true
      · simp only [if_pos hinclude] at hinside ⊢
        have hwidth (g : Group)
            (hg : braced ((backslash :: r).drop (1 + wordWidth r) ++ rest) = some g) :
            1 + wordWidth r + g.width ≤ (backslash :: r).length := by
          rw [hg] at hinside
          rcases hinside with ⟨width, hkeep⟩ | hinside
          · cases hkeep
          · exact hinside
        have hbraced : braced ((backslash :: r).drop (1 + wordWidth r) ++ (m ++ rest)) =
            braced ((backslash :: r).drop (1 + wordWidth r) ++ rest) :=
          delimited_insert hbehind hm .braces fun g hg => by
            have hinside := hwidth g hg
            omega
        rw [hbraced]
        cases hg : braced ((backslash :: r).drop (1 + wordWidth r) ++ rest) with
        | none => exact ⟨rfl, Nat.le_of_lt hname⟩
        | some g =>
            simp only [← List.cons_append, followStep_append (hwidth g hg)]
            exact ⟨trivial, hwidth g hg⟩
      · simp only [if_neg hinclude, Step.width]
        exact ⟨trivial, Nat.le_of_lt hname⟩

/-! ## Comments -/

theorem pausedWidth_of_ne_nil (marker : List UInt8) (h : l ≠ []) :
    pausedWidth marker l =
      if marker.isPrefixOf (Text.trimStart (restOfLine l)) then lineWidth l
      else lineWidth l + pausedWidth marker (l.drop (lineWidth l)) := by
  rw [pausedWidth, dif_neg h]
  rfl

theorem lineWidth_pos (h : l ≠ []) : 0 < lineWidth l := by
  have hpos := List.length_pos_iff.2 h
  rw [lineWidth]
  omega

theorem lineWidth_append (hl : EndsLine l) (rest : List UInt8) :
    lineWidth (l ++ rest) = lineWidth l ∧ lineWidth l ≤ l.length := by
  obtain ⟨hsame, hlt⟩ := hl.restOfLine_append rest
  refine ⟨?_, Nat.min_le_right _ _⟩
  rw [lineWidth, lineWidth, hsame, List.length_append]
  omega

theorem pausedWidth_append (marker : List UInt8) (hl : EndsLine l) (rest : List UInt8) :
    pausedWidth marker (l ++ rest) =
      if marker.isPrefixOf (Text.trimStart (restOfLine l)) then lineWidth l
      else lineWidth l + pausedWidth marker (l.drop (lineWidth l) ++ rest) := by
  obtain ⟨hwidth, hle⟩ := lineWidth_append hl rest
  rw [pausedWidth_of_ne_nil marker (List.append_ne_nil_of_left_ne_nil hl.ne_nil rest),
    (hl.restOfLine_append rest).1, hwidth, List.drop_append_of_le_length hle]

theorem pausedWidth_le (marker l : List UInt8) : pausedWidth marker l ≤ l.length := by
  fun_induction pausedWidth marker l with
  | case1 => exact Nat.zero_le _
  | case2 => exact Nat.min_le_right _ _
  | case3 l _ line whole _ ih =>
      have hle : whole ≤ l.length := Nat.min_le_right _ _
      rw [List.length_drop] at ih
      omega

/-- A paused region that ends before the inserted line ends there still, unless it ends with
the text: then it goes on through that line. -/
theorem pausedWidth_insert (marker : List UInt8) {l : List UInt8} (hl : l = [] ∨ EndsLine l)
    (hm : lineWidth m = m.length) (hsome : m ≠ [])
    (hinside : pausedWidth marker (l ++ rest) ≤ l.length) :
    pausedWidth marker (l ++ (m ++ rest)) = pausedWidth marker (l ++ rest) ∨
      rest = [] ∧ pausedWidth marker (l ++ rest) = l.length ∧
        pausedWidth marker (l ++ (m ++ rest)) = l.length + m.length := by
  rcases hl with rfl | hl
  · have hempty : rest = [] := by
      by_contra hrest
      have hpos := lineWidth_pos hrest
      rw [List.nil_append, pausedWidth_of_ne_nil marker hrest, List.length_nil] at hinside
      split at hinside <;> omega
    have hwhole : pausedWidth marker m = m.length := by
      have hbehind : pausedWidth marker (m.drop m.length) = 0 := by
        rw [List.drop_length, pausedWidth, dif_pos rfl]
      rw [pausedWidth_of_ne_nil marker hsome, hm, hbehind, Nat.add_zero, ite_self]
    refine Or.inr ⟨hempty, Nat.le_zero.1 hinside, ?_⟩
    rw [hempty, List.append_nil, List.nil_append, hwhole, List.length_nil, Nat.zero_add]
  · have hpos := lineWidth_pos hl.ne_nil
    have hle : lineWidth l ≤ l.length := Nat.min_le_right _ _
    have hlength : (l.drop (lineWidth l)).length = l.length - lineWidth l := List.length_drop
    rw [pausedWidth_append marker hl] at hinside
    rw [pausedWidth_append marker hl, pausedWidth_append marker hl]
    split
    · exact Or.inl rfl
    · next hmarker =>
      rw [if_neg hmarker] at hinside
      rcases pausedWidth_insert marker (hl.drop_eq_nil_or (lineWidth l)) hm hsome
        (by omega) with hsame | ⟨hempty, hends, hgoes⟩
      · exact Or.inl (by rw [hsame])
      · exact Or.inr ⟨hempty, by omega, by omega⟩
termination_by l.length

theorem commentStep_width_le (options : Options) (before l : List UInt8) :
    (commentStep options before l).width ≤ l.length := by
  have hline : lineWidth l ≤ l.length := Nat.min_le_right _ _
  obtain ⟨indentation, width, hstep, hcomment⟩ := exists_commentAt options before l
  rw [hstep, Step.width]
  cases hcomment with
  | trailing => exact spanLength_le _ l
  | alone => exact hline
  | pause =>
      have hpaused := pausedWidth_le (Text.bytes options.continueMarker) (l.drop (lineWidth l))
      rw [List.length_drop] at hpaused
      omega

theorem step_percent (before rest : List UInt8) :
    step options before (percent :: rest).length (percent :: rest) =
      commentStep options before (percent :: rest) := by
  have hle := commentStep_width_le options before (percent :: rest)
  obtain ⟨indentation, width, hcomment, -⟩ := exists_commentAt options before (percent :: rest)
  rw [hcomment, Step.width] at hle
  rw [step, if_pos rfl, hcomment]
  simp only [Nat.min_eq_left hle]

theorem commentStep_append (hl : EndsLine l) (rest : List UInt8) :
    commentStep options before (l ++ rest) =
      if (restOfLine before).all isInlineBlank then
        if (Text.bytes options.pauseMarker).isPrefixOf (restOfLine l) then
          .comment (some (restOfLine before).length) (lineWidth l +
            pausedWidth (Text.bytes options.continueMarker) (l.drop (lineWidth l) ++ rest))
        else .comment (some (restOfLine before).length) (lineWidth l)
      else .comment none (restOfLine l).length := by
  obtain ⟨hwidth, hle⟩ := lineWidth_append hl rest
  rw [← List.drop_append_of_le_length hle]
  unfold lineWidth at hwidth ⊢
  unfold commentStep
  simp only [hwidth]
  rw [(hl.restOfLine_append rest).1]

theorem commentStep_insert (hl : EndsLine l) (hm : lineWidth m = m.length) (hsome : m ≠ [])
    (hinside : (commentStep options before (l ++ rest)).width ≤ l.length) :
    commentStep options before (l ++ (m ++ rest)) = commentStep options before (l ++ rest) ∨
      rest = [] ∧ ∃ indentation,
        commentStep options before (l ++ rest) = .comment indentation l.length ∧
        commentStep options before (l ++ (m ++ rest)) =
          .comment indentation (l.length + m.length) := by
  rw [commentStep_append hl] at hinside
  rw [commentStep_append hl, commentStep_append hl]
  split
  · next hblank =>
    split
    · next hpause =>
      rw [if_pos hblank, if_pos hpause, Step.width] at hinside
      have hle : lineWidth l ≤ l.length := Nat.min_le_right _ _
      have hlength : (l.drop (lineWidth l)).length = l.length - lineWidth l := List.length_drop
      have hpaused : pausedWidth (Text.bytes options.continueMarker)
          (l.drop (lineWidth l) ++ rest) ≤ (l.drop (lineWidth l)).length := by
        omega
      rcases pausedWidth_insert (Text.bytes options.continueMarker)
        (hl.drop_eq_nil_or (lineWidth l)) hm hsome hpaused with hsame | ⟨hempty, hends, hgoes⟩
      · exact Or.inl (by rw [hsame])
      · have hwhole : lineWidth l + (l.length - lineWidth l) = l.length := Nat.add_sub_cancel' hle
        refine Or.inr ⟨hempty, some (restOfLine before).length, ?_, ?_⟩
        · rw [hends, hlength, hwhole]
        · rw [hgoes, hlength, ← Nat.add_assoc, hwhole]
    · exact Or.inl rfl
  · exact Or.inl rfl

/-! ## Steps -/

/-- A step that starts before the inserted line and ends there is the same, or it pauses the
reading up to the end of the text. -/
theorem step_insert (hl : EndsLine l) (hneutral : Neutral m) (hm : lineWidth m = m.length)
    (hsome : m ≠ []) (hmark : ∃ b ∈ l, ¬ isPlain b = true)
    (hrest : ∀ b ∈ rest.head?, isContinuation b = false)
    (hnext : ∀ b ∈ (m ++ rest).head?, isContinuation b = false) {s : Step}
    (hs : step options before (l ++ rest).length (l ++ rest) = s)
    (hinside : (∃ width, s = .keep width) ∨ s.width ≤ l.length) :
    step options before (l ++ (m ++ rest)).length (l ++ (m ++ rest)) = s ∧ s.width ≤ l.length ∨
      rest = [] ∧ ∃ indentation, s = .comment indentation l.length ∧
        step options before (l ++ (m ++ rest)).length (l ++ (m ++ rest)) =
          .comment indentation (l.length + m.length) := by
  subst hs
  obtain ⟨b, others, rfl⟩ := List.exists_cons_of_ne_nil hl.ne_nil
  by_cases hpercent : b = percent
  · subst hpercent
    simp only [List.cons_append, step_percent] at hinside ⊢
    simp only [← List.cons_append] at hinside ⊢
    have hwidth : (commentStep options before (percent :: others ++ rest)).width ≤
        (percent :: others).length := by
      rcases hinside with ⟨width, hkeep⟩ | hinside
      · obtain ⟨indentation, width, hcomment, -⟩ :=
          exists_commentAt options before (percent :: others ++ rest)
        rw [hcomment] at hkeep
        cases hkeep
      · exact hinside
    exact (commentStep_insert hl hm hsome hwidth).imp_left fun hsame => ⟨hsame, hwidth⟩
  refine Or.inl ?_
  by_cases hback : b = backslash
  · subst hback
    simp only [List.cons_append, step_backslash] at hinside ⊢
    exact controlStep_insert hl hneutral hrest hnext hinside
  · have hplain : isPlain b = true := isPlain_iff.2 ⟨hback, hpercent⟩
    obtain ⟨c, hc, hcmark⟩ := hmark
    have hlt := spanLength_lt hc hcmark
    simp only [List.cons_append, step_plain hplain]
    simp only [← List.cons_append, spanLength_append_of_lt hlt]
    exact ⟨trivial, Nat.le_of_lt hlt⟩

end LatexOrigins.Flat
