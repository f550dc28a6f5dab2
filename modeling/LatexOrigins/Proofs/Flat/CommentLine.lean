import LatexOrigins.Proofs.Flat.Insertion
import LatexOrigins.Proofs.Flat.Shift

/-!
# A line with nothing but a comment

A line with nothing but a comment can be put in wherever a line starts, as long as the scan is
not in the middle of something there. Up to that place the steps stay the same. A run of bytes
that mean nothing is cut in two there; the indentation of the new line is kept, and the comment
takes it back. Behind the new line a line starts as before.
-/

namespace LatexOrigins.Flat

open Markup
open Results (Matched)

/-- A step that runs over an offset does no more than to keep what it passes over: it is no
inclusion, no command with its arguments and no comment with what it pauses. The argument of
`\verb` ends on its line, so where a line starts it is none of these either. -/
def Outside (options : Options) (bytes : List UInt8) (n : Nat) : Prop :=
  ∀ offset limit, Scanned options bytes offset limit → offset < n →
    n < offset + (stepAt options bytes offset limit).width →
      ∃ width, stepAt options bytes offset limit = .keep width

def commentLine (blanks text : String) : String := blanks ++ ("%" ++ text ++ "\n")

/-- Blanks, and a comment that opens and closes nothing and does not pause the reading. -/
structure IsComment (options : Options) (blanks text : String) : Prop where
  blanks : ∀ b ∈ Text.bytes blanks, isInlineBlank b = true
  neutral : Neutral (Text.bytes text)
  oneLine : lineBreak ∉ Text.bytes text
  reads : ¬ Text.bytes options.pauseMarker <+: percent :: Text.bytes text

variable {options : Options} {content path : String} {bytes before : List UInt8} {offset n : Nat}
  {ms ms' : List Move}

/-! ## Moves with the same effect -/

/-- Some moves of a content do the same as others. -/
def SameEffect (content : String) (ms ms' : List Move) : Prop :=
  ∀ ⦃files enter path id flat⦄, Aligned flat →
    ms.foldlM (perform files enter path id content) flat =
      ms'.foldlM (perform files enter path id content) flat

theorem SameEffect.append_right (h : SameEffect content ms ms') (rest : List Move) :
    SameEffect content (ms ++ rest) (ms' ++ rest) := by
  intro files enter path id flat hflat
  rw [List.foldlM_append, List.foldlM_append, h hflat]

theorem Alike.of_sameEffect {place : String → Nat → Nat} {content' : String}
    {others others' : List Move} (h : SameEffect content ms others)
    (h' : SameEffect content' ms' others')
    (hothers : Alike place path content content' others others') :
    Alike place path content content' ms ms' := by
  intro files files' enter enter' hpaired flat flat' id hid hflat
  rw [h hflat.aligned, h' hflat.aligned']
  exact hothers hpaired hid hflat

theorem sameEffect_split {start mid stop : Nat} (hstart : Cut (Text.bytes content) start)
    (hmid : Cut (Text.bytes content) mid) (hstop : Cut (Text.bytes content) stop)
    (hfront : start ≤ mid) (hrest : mid ≤ stop) :
    SameEffect content [.keep start stop] [.keep start mid, .keep mid stop] := by
  intro files enter path id flat hflat
  obtain ⟨whole, hwhole⟩ := exists_keep flat id hstart hstop (Nat.le_trans hfront hrest)
  obtain ⟨part, hpart⟩ := exists_keep flat id hstart hmid hfront
  obtain ⟨both, hboth⟩ := exists_keep part id hmid hstop hrest
  obtain ⟨hfiles, hbytes, hentries⟩ := keep_eq_ok hwhole
  obtain ⟨hfiles', hbytes', hentries'⟩ := keep_eq_ok hpart
  obtain ⟨hfiles'', hbytes'', hentries''⟩ := keep_eq_ok hboth
  have hsame : whole = both := by
    refine eq_of_parts ?_ ?_ ?_
    · rw [hfiles'', hfiles', hfiles]
    · rw [hbytes'', hbytes', hbytes, List.append_assoc, cutOut_append content hfront hrest]
    · rw [hentries'', hentries', hentries, List.append_assoc, provenances_append id hfront hrest]
  simp only [List.foldlM_cons, List.foldlM_nil, perform, hwhole, hpart, hboth, hsame,
    Results.mapError_ok, Results.ok_bind]

theorem sameEffect_retract {start count : Nat} (comment : Nat)
    (hstart : Cut (Text.bytes content) start) (hstop : Cut (Text.bytes content) (start + count)) :
    SameEffect content [.keep start (start + count), .comment comment (some count)] [] := by
  intro files enter path id flat hflat
  obtain ⟨whole, part, hwhole, hpart, hnothing⟩ := keep_retract hflat id hstart
    (by rw [Nat.add_sub_cancel]; exact hstart) hstop (Nat.le_refl (start + count))
  rw [Nat.add_sub_cancel, Flat.keep, if_neg (Nat.lt_irrefl start)] at hnothing
  obtain rfl := Except.ok.inj hnothing
  simp only [List.foldlM_cons, List.foldlM_nil, perform, hwhole, hpart, Results.mapError_ok,
    Results.ok_bind]

theorem sameEffect_retract_zero (comment : Nat) :
    SameEffect content [.comment comment (some 0)] [] := by
  intro files enter path id flat hflat
  simp only [List.foldlM_cons, List.foldlM_nil, perform, retract_zero hflat, Results.mapError_ok,
    Results.ok_bind]

/-! ## The new line -/

theorem cut_front (front rest : String) :
    Cut (Text.bytes (front ++ rest)) front.utf8ByteSize := by
  rw [Text.bytes_append, ← Text.length_bytes, ← Nat.add_zero (Text.bytes front).length,
    cut_append_right]
  exact Cut.zero (Text.encoded_bytes rest)

theorem bytes_comment (text : String) :
    Text.bytes ("%" ++ text ++ "\n") = percent :: Text.bytes text ++ [lineBreak] := by
  have hpercent : Text.bytes "%" = [percent] := by decide +kernel
  have hbreak : Text.bytes "\n" = [lineBreak] := by decide +kernel
  rw [Text.bytes_append, Text.bytes_append, hpercent, hbreak]
  rfl

theorem bytes_commentLine (blanks text : String) :
    Text.bytes (commentLine blanks text) =
      Text.bytes blanks ++ (percent :: Text.bytes text) ++ [lineBreak] := by
  rw [commentLine, Text.bytes_append, bytes_comment, List.append_assoc]

theorem lineWidth_line {line : List UInt8} (h : lineBreak ∉ line) :
    restOfLine (line ++ [lineBreak]) = line ∧
      lineWidth (line ++ [lineBreak]) = (line ++ [lineBreak]).length := by
  have hline : restOfLine (line ++ [lineBreak]) = line := by
    have hall : ∀ b ∈ line, decide (b ≠ lineBreak) = true := by
      intro b hb
      exact decide_eq_true fun heq => h (heq ▸ hb)
    rw [restOfLine, List.takeWhile_append_of_pos hall, List.takeWhile_cons_of_neg (by decide),
      List.append_nil]
  refine ⟨hline, ?_⟩
  rw [lineWidth, hline, List.length_append, List.length_singleton, Nat.min_self]

theorem endsLine_line (line : List UInt8) : EndsLine (line ++ [lineBreak]) :=
  List.getLast?_concat

theorem lead_blanks {blanks : List UInt8} (h : ∀ b ∈ blanks, isInlineBlank b = true)
    (before : List UInt8) :
    lead (blanks ++ before) = (lead before).map (· + blanks.length) := by
  induction blanks with
  | nil => simp
  | cons b blanks ih =>
      obtain ⟨hb, hrest⟩ := List.forall_mem_cons.1 h
      have hbreak : b ≠ lineBreak := by
        rintro rfl
        exact absurd hb (by decide)
      rw [List.cons_append, lead_cons hbreak, if_pos hb, ih hrest, Option.map_map]
      rfl

theorem endsLine_of_startsLine (h : StartsLine bytes bytes.length) (hsome : bytes ≠ []) :
    EndsLine bytes := by
  rw [EndsLine, List.getLast?_eq_getElem?]
  exact h.resolve_left fun hzero => hsome (List.length_eq_zero_iff.1 hzero)

theorem lead_of_startsLine (h : StartsLine bytes bytes.length) : lead bytes.reverse = some 0 := by
  by_cases hsome : bytes = []
  · rw [hsome]
    rfl
  · obtain ⟨init, rfl⟩ := (endsLine_of_startsLine h hsome).exists_init
    rw [List.reverse_concat, lead_lineBreak]

namespace IsComment

variable {blanks text : String}

theorem neutral_bytes (h : IsComment options blanks text) :
    Neutral (Text.bytes (commentLine blanks text)) := by
  intro b hb
  rw [bytes_commentLine, List.mem_append, List.mem_append, List.mem_cons, List.mem_singleton] at hb
  rcases hb with (hb | rfl | hb) | rfl
  · have hblank := h.blanks b hb
    simp only [isInlineBlank, Bool.or_eq_true, decide_eq_true_eq] at hblank
    rcases hblank with rfl | rfl <;> decide
  · decide
  · exact h.neutral b hb
  · decide

theorem lineBreak_not_mem (h : IsComment options blanks text) :
    lineBreak ∉ Text.bytes blanks ++ (percent :: Text.bytes text) := by
  rw [List.mem_append, List.mem_cons]
  rintro (hmem | hmem | hmem)
  · exact absurd (h.blanks lineBreak hmem) (by decide)
  · exact absurd hmem (by decide)
  · exact h.oneLine hmem

theorem lineWidth_eq (h : IsComment options blanks text) :
    lineWidth (Text.bytes (commentLine blanks text)) =
      (Text.bytes (commentLine blanks text)).length := by
  rw [bytes_commentLine]
  exact (lineWidth_line h.lineBreak_not_mem).2

theorem commentStep_eq (h : IsComment options blanks text) {k : Nat} (hlead : lead before = some k)
    (rest : List UInt8) :
    commentStep options before (percent :: Text.bytes text ++ [lineBreak] ++ rest) =
      .comment (some k) (percent :: Text.bytes text ++ [lineBreak]).length := by
  have hnot : lineBreak ∉ percent :: Text.bytes text :=
    fun hmem => h.lineBreak_not_mem (List.mem_append_right _ hmem)
  obtain ⟨hrest, hwidth⟩ := lineWidth_line hnot
  unfold lead at hlead
  split at hlead
  · next hblank =>
    have hreads := h.reads
    rw [← List.isPrefixOf_iff_prefix] at hreads
    rw [commentStep_append (endsLine_line _), if_pos hblank, hrest, if_neg hreads, hwidth,
      Option.some.inj hlead]
  · cases hlead

theorem movesBetween_comment (h : IsComment options blanks text) {front : List UInt8} {k : Nat}
    (hlead : lead front.reverse = some k) (rest : List UInt8) :
    movesBetween options (front ++ (percent :: Text.bytes text ++ [lineBreak] ++ rest))
        front.length (front ++ (percent :: Text.bytes text ++ [lineBreak] ++ rest)).length =
      .comment front.length (some k) ::
        movesBetween options (front ++ (percent :: Text.bytes text ++ [lineBreak] ++ rest))
          (front.length + (percent :: Text.bytes text ++ [lineBreak]).length)
          (front ++ (percent :: Text.bytes text ++ [lineBreak] ++ rest)).length := by
  have hstep : stepAt options (front ++ (percent :: Text.bytes text ++ [lineBreak] ++ rest))
        front.length (front ++ (percent :: Text.bytes text ++ [lineBreak] ++ rest)).length =
      .comment (some k) (percent :: Text.bytes text ++ [lineBreak]).length := by
    have hcomment := h.commentStep_eq hlead rest
    rw [stepAt_length, List.take_left, List.drop_left]
    simp only [List.cons_append, step_percent] at hcomment ⊢
    exact hcomment
  rw [movesBetween_of_lt (by simp) (Nat.le_refl _), hstep]
  rfl

theorem lead_indentation (h : IsComment options blanks text) {front : List UInt8}
    (hline : StartsLine front front.length) :
    lead (front ++ Text.bytes blanks).reverse = some (Text.bytes blanks).length := by
  have hblanks : ∀ b ∈ (Text.bytes blanks).reverse, isInlineBlank b = true :=
    fun b hb => h.blanks b (List.mem_reverse.1 hb)
  rw [List.reverse_append, lead_blanks hblanks, lead_of_startsLine hline, Option.map_some,
    List.length_reverse, Nat.zero_add]

theorem movesBetween_indentation (h : IsComment options blanks text)
    (hsome : Text.bytes blanks ≠ []) (front rest : List UInt8) :
    movesBetween options (front ++ Text.bytes blanks ++ percent :: rest) front.length
        (front ++ Text.bytes blanks ++ percent :: rest).length =
      .keep front.length (front ++ Text.bytes blanks).length ::
        movesBetween options (front ++ Text.bytes blanks ++ percent :: rest)
          (front ++ Text.bytes blanks).length
          (front ++ Text.bytes blanks ++ percent :: rest).length := by
  obtain ⟨b, others, hothers⟩ := List.exists_cons_of_ne_nil hsome
  have hplain (c : UInt8) (hc : c ∈ Text.bytes blanks) : isPlain c = true :=
    isPlain_of_test rfl rfl c (h.blanks c hc)
  have hfirst : (front ++ Text.bytes blanks ++ percent :: rest)[front.length]? = some b := by
    rw [List.append_assoc, List.getElem?_append_right (Nat.le_refl _), Nat.sub_self, hothers]
    rfl
  have hspan : spanLength isPlain ((front ++ Text.bytes blanks ++ percent :: rest).drop
      front.length) = (Text.bytes blanks).length := by
    rw [List.append_assoc, List.drop_left, spanLength, List.takeWhile_append_of_pos hplain,
      List.takeWhile_cons_of_neg (by decide), List.append_nil]
  rw [movesBetween_plain hfirst (hplain b (hothers ▸ List.mem_cons_self)), hspan,
    ← List.length_append]

/-- The new line comes to nothing. -/
theorem sameEffect (h : IsComment options blanks text) {front : String}
    (hline : StartsLine (Text.bytes front) (Text.bytes front).length) (rest : String) :
    SameEffect (front ++ (commentLine blanks text ++ rest))
      (movesBetween options (Text.bytes (front ++ (commentLine blanks text ++ rest)))
        front.utf8ByteSize (Text.bytes (front ++ (commentLine blanks text ++ rest))).length)
      (movesBetween options (Text.bytes (front ++ (commentLine blanks text ++ rest)))
        (front ++ commentLine blanks text).utf8ByteSize
        (Text.bytes (front ++ (commentLine blanks text ++ rest))).length) := by
  have hcomment := h.movesBetween_comment (h.lead_indentation hline) (Text.bytes rest)
  have hbytes : Text.bytes (front ++ (commentLine blanks text ++ rest)) =
      Text.bytes front ++ Text.bytes blanks ++
        (percent :: Text.bytes text ++ [lineBreak] ++ Text.bytes rest) := by
    rw [Text.bytes_append, Text.bytes_append, bytes_commentLine]
    simp
  have hsize : (front ++ commentLine blanks text).utf8ByteSize =
      (Text.bytes front ++ Text.bytes blanks).length +
        (percent :: Text.bytes text ++ [lineBreak]).length := by
    rw [← Text.length_bytes, Text.bytes_append, bytes_commentLine]
    simp only [List.length_append]
    omega
  have hstart := cut_front front (commentLine blanks text ++ rest)
  have hstop : Cut (Text.bytes (front ++ (commentLine blanks text ++ rest)))
      (front.utf8ByteSize + (Text.bytes blanks).length) := by
    have hassoc : front ++ (commentLine blanks text ++ rest) =
        (front ++ blanks) ++ ("%" ++ text ++ "\n" ++ rest) := by
      simp only [commentLine, String.append_assoc]
    rw [hassoc, Text.length_bytes, ← String.utf8ByteSize_append]
    exact cut_front _ _
  rw [hsize]
  by_cases hsome : Text.bytes blanks = []
  · rw [hbytes]
    rw [hsome, List.append_nil] at hcomment ⊢
    rw [← Text.length_bytes front, hcomment]
    exact (sameEffect_retract_zero _).append_right _
  · have hkeep := h.movesBetween_indentation hsome (Text.bytes front)
      (Text.bytes text ++ [lineBreak] ++ Text.bytes rest)
    simp only [List.cons_append] at hbytes hcomment hkeep ⊢
    rw [← Text.length_bytes, hbytes, hkeep, hcomment, ← hbytes, List.length_append,
      Text.length_bytes front]
    exact (sameEffect_retract _ hstart hstop).append_right _

end IsComment

/-! ## Up to the new line -/

/-- A run of bytes that mean nothing may be cut where a front ends. -/
theorem sameEffect_plain {front rest : String} (hcut : Cut (Text.bytes (front ++ rest)) offset)
    (hlt : offset < front.utf8ByteSize)
    (hplain : ∀ b ∈ (Text.bytes front).drop offset, isPlain b = true) :
    SameEffect (front ++ rest)
      (movesBetween options (Text.bytes (front ++ rest)) offset
        (Text.bytes (front ++ rest)).length)
      (.keep offset front.utf8ByteSize ::
        movesBetween options (Text.bytes (front ++ rest)) front.utf8ByteSize
          (Text.bytes (front ++ rest)).length) := by
  have hmid := cut_front front rest
  have hbytes : Text.bytes (front ++ rest) = Text.bytes front ++ Text.bytes rest :=
    Text.bytes_append _ _
  have hdrop : (Text.bytes (front ++ rest)).drop offset =
      (Text.bytes front).drop offset ++ Text.bytes rest := by
    rw [hbytes, List.drop_append_of_le_length (by rw [Text.length_bytes]; omega)]
  have hspan : offset + spanLength isPlain ((Text.bytes (front ++ rest)).drop offset) =
      front.utf8ByteSize + spanLength isPlain (Text.bytes rest) := by
    have hlength : ((Text.bytes front).drop offset).length = front.utf8ByteSize - offset := by
      rw [List.length_drop, Text.length_bytes]
    rw [hdrop, spanLength, List.takeWhile_append_of_pos hplain, List.length_append, hlength,
      spanLength]
    omega
  obtain ⟨b, others, hothers⟩ := List.exists_cons_of_ne_nil
    (List.ne_nil_of_length_pos (l := (Text.bytes front).drop offset) (by
      rw [List.length_drop, Text.length_bytes]
      omega))
  have hb : (Text.bytes (front ++ rest))[offset]? = some b := by
    rw [← Nat.add_zero offset, ← List.getElem?_drop, hdrop, hothers]
    rfl
  rw [movesBetween_plain hb (hplain b (hothers ▸ List.mem_cons_self)), hspan]
  by_cases hzero : spanLength isPlain (Text.bytes rest) = 0
  · rw [hzero, Nat.add_zero]
    exact fun _ _ _ _ _ _ => rfl
  · -- The run goes on behind the front, so it is kept in two pieces.
    obtain ⟨c, more, hmore⟩ := List.exists_cons_of_ne_nil
      (fun hnil : Text.bytes rest = [] => hzero (by rw [hnil]; rfl))
    have hc : isPlain c = true := by
      by_contra hnot
      rw [hmore, spanLength_cons_of_neg hnot] at hzero
      exact hzero rfl
    have hnext : (Text.bytes (front ++ rest))[front.utf8ByteSize]? = some c := by
      rw [hbytes, ← Text.length_bytes, List.getElem?_append_right (Nat.le_refl _), Nat.sub_self,
        hmore]
      rfl
    have hrest : (Text.bytes (front ++ rest)).drop front.utf8ByteSize = Text.bytes rest := by
      rw [hbytes, ← Text.length_bytes, List.drop_left]
    have hstop : Cut (Text.bytes (front ++ rest))
        (front.utf8ByteSize + spanLength isPlain (Text.bytes rest)) := by
      have hend := Cut.length (Text.bytes (front ++ rest))
      have hinside := lt_length hnext
      have hstep := hmid.add ((found_of_cuts options hmid hend hinside).cut hmid.encoded
        (cut_room hend hinside))
      rwa [stepAt_plain hnext hc, hrest] at hstep
    rw [movesBetween_plain hnext hc, hrest]
    have hle : front.utf8ByteSize ≤ front.utf8ByteSize + spanLength isPlain (Text.bytes rest) :=
      Nat.le_add_right _ _
    exact (sameEffect_split hcut hmid hstop hlt.le hle).append_right _

/-! ## Both scans -/

theorem lt_length_of_mem_drop {a : List UInt8} {p : UInt8 → Prop}
    (h : ∃ b ∈ a.drop offset, p b) : offset < a.length := by
  obtain ⟨b, hb, -⟩ := h
  by_contra hge
  rw [List.drop_eq_nil_of_le (Nat.not_lt.1 hge)] at hb
  cases hb

theorem stepAt_front {a : List UInt8} (h : offset ≤ a.length) (rest : List UInt8) :
    stepAt options (a ++ rest) offset (a ++ rest).length =
      step options (a.take offset).reverse (a.drop offset ++ rest).length
        (a.drop offset ++ rest) := by
  rw [stepAt_length, List.take_append_of_le_length h, List.drop_append_of_le_length h]

theorem head_not_isContinuation (s : String) :
    ∀ b ∈ (Text.bytes s).head?, isContinuation b = false := by
  intro b hb
  obtain ⟨rest, hrest⟩ := List.head?_eq_some_iff.1 hb
  exact (hrest ▸ Text.encoded_bytes s).not_isContinuation

/-- From an offset on the scans of a content without and with a line do the same. -/
def AlikeFrom (options : Options) (path front line rest : String) (offset : Nat) : Prop :=
  Alike (shift path front.utf8ByteSize (front ++ line).utf8ByteSize) path
    (front ++ rest) (front ++ (line ++ rest))
    (movesBetween options (Text.bytes (front ++ rest)) offset (Text.bytes (front ++ rest)).length)
    (movesBetween options (Text.bytes (front ++ (line ++ rest))) offset
      (Text.bytes (front ++ (line ++ rest))).length)

namespace IsComment

variable {front rest blanks text : String}

theorem alikeFrom_front (h : IsComment options blanks text)
    (hline : StartsLine (Text.bytes front) (Text.bytes front).length) (path rest : String) :
    AlikeFrom options path front (commentLine blanks text) rest front.utf8ByteSize := by
  have hlead : lead (Text.bytes front).reverse =
      lead (Text.bytes (front ++ commentLine blanks text)).reverse := by
    rw [lead_of_startsLine hline, Text.bytes_append, bytes_commentLine, ← List.append_assoc,
      List.reverse_concat, lead_lineBreak]
  refine .of_sameEffect (fun _ _ _ _ _ _ => rfl) (h.sameEffect hline rest) ?_
  rw [← String.append_assoc]
  exact .rest (shift_add path _ _) hlead rest

theorem alikeFrom_plain (h : IsComment options blanks text)
    (hline : StartsLine (Text.bytes front) (Text.bytes front).length)
    (hcut : Cut (Text.bytes (front ++ rest)) offset) (hlt : offset < front.utf8ByteSize)
    (hplain : ∀ b ∈ (Text.bytes front).drop offset, isPlain b = true) (path : String) :
    AlikeFrom options path front (commentLine blanks text) rest offset := by
  have hinside : offset ≤ (Text.bytes front).length := Nat.le_of_lt hlt
  have hcut' : Cut (Text.bytes (front ++ (commentLine blanks text ++ rest))) offset := by
    rw [Text.bytes_append, cut_append_left (Text.encoded_bytes _) hinside] at hcut ⊢
    exact hcut
  refine .of_sameEffect (sameEffect_plain hcut hlt hplain) (sameEffect_plain hcut' hlt hplain) ?_
  exact .cons (.keep_front (fun _ => shift_of_lt) hinside (Nat.le_refl _) _ _)
    (h.alikeFrom_front hline path rest)

/-- A step before that run is the same, or it pauses the reading up to the end of the text. -/
theorem stepAt_insert (h : IsComment options blanks text)
    (hline : StartsLine (Text.bytes front) (Text.bytes front).length)
    (hmark : ∃ b ∈ (Text.bytes front).drop offset, ¬ isPlain b = true) {s : Step}
    (hs : stepAt options (Text.bytes (front ++ rest)) offset (Text.bytes (front ++ rest)).length =
      s)
    (hinside : (∃ width, s = .keep width) ∨ offset + s.width ≤ front.utf8ByteSize) :
    stepAt options (Text.bytes (front ++ (commentLine blanks text ++ rest))) offset
          (Text.bytes (front ++ (commentLine blanks text ++ rest))).length = s ∧
        offset + s.width ≤ front.utf8ByteSize ∨
      Text.bytes rest = [] ∧ ∃ indentation, s = .comment indentation (front.utf8ByteSize - offset) ∧
        stepAt options (Text.bytes (front ++ (commentLine blanks text ++ rest))) offset
            (Text.bytes (front ++ (commentLine blanks text ++ rest))).length =
          .comment indentation
            (front.utf8ByteSize - offset + (commentLine blanks text).utf8ByteSize) := by
  have hlt := lt_length_of_mem_drop hmark
  have hends : EndsLine ((Text.bytes front).drop offset) :=
    (endsLine_of_startsLine hline (List.ne_nil_of_length_pos (by omega))).drop hlt
  have hlength : ((Text.bytes front).drop offset).length = front.utf8ByteSize - offset := by
    rw [List.length_drop, Text.length_bytes]
  have hsome : Text.bytes (commentLine blanks text) ≠ [] := by
    rw [bytes_commentLine]
    simp
  have hhead := head_not_isContinuation (commentLine blanks text ++ rest)
  rw [Text.bytes_append] at hhead
  rw [Text.bytes_append, stepAt_front (Nat.le_of_lt hlt)] at hs
  rw [Text.bytes_append, Text.bytes_append, stepAt_front (Nat.le_of_lt hlt)]
  have hwidth : (∃ width, s = .keep width) ∨
      s.width ≤ ((Text.bytes front).drop offset).length := by
    rw [Text.length_bytes] at hlt
    rw [hlength]
    exact hinside.imp_right fun hle => by omega
  rcases step_insert hends h.neutral_bytes h.lineWidth_eq hsome hmark
    (head_not_isContinuation rest) hhead hs hwidth with ⟨hsame, hle⟩ | hpaused
  · rw [hlength] at hle
    rw [Text.length_bytes] at hlt
    exact Or.inl ⟨hsame, by omega⟩
  · rw [hlength] at hpaused
    exact Or.inr hpaused

theorem alikeFrom_step (h : IsComment options blanks text)
    (hrules : ∀ rule ∈ options.commandRules, KeepsNone rule)
    (hline : StartsLine (Text.bytes front) (Text.bytes front).length)
    (hmark : ∃ b ∈ (Text.bytes front).drop offset, ¬ isPlain b = true) {path : String} {s : Step}
    (hs : stepAt options (Text.bytes (front ++ rest)) offset (Text.bytes (front ++ rest)).length =
      s)
    (hinside : (∃ width, s = .keep width) ∨ offset + s.width ≤ front.utf8ByteSize)
    (hnext : offset + s.width ≤ front.utf8ByteSize →
      AlikeFrom options path front (commentLine blanks text) rest (offset + s.width)) :
    AlikeFrom options path front (commentLine blanks text) rest offset := by
  have hlt := lt_length_of_mem_drop hmark
  have hend : offset < (Text.bytes (front ++ rest)).length := by
    rw [Text.bytes_append, List.length_append]
    omega
  have hend' : offset < (Text.bytes (front ++ (commentLine blanks text ++ rest))).length := by
    rw [Text.bytes_append, List.length_append]
    omega
  rw [AlikeFrom, movesBetween_of_keepsNone hrules hend, movesBetween_of_keepsNone hrules hend', hs]
  rcases h.stepAt_insert hline hmark hs hinside with
    ⟨hsame, hle⟩ | ⟨hempty, indentation, rfl, hgoes⟩
  · rw [hsame]
    refine .append (.movesAt_front (fun _ => shift_of_lt) hle ?_ _ _) (hnext hle)
    rintro start stop width rfl
    exact step_follow_bounds hs
  · -- Nothing is left behind the paused region, without the new line and with it.
    rw [Text.length_bytes] at hlt
    have hsize : front.utf8ByteSize = offset + (front.utf8ByteSize - offset) := by omega
    rw [hgoes, movesBetween_of_le, movesBetween_of_le]
    · exact (Alike.comment indentation).append .nil
    · rw [Step.width, Text.bytes_append, Text.bytes_append, hempty, List.append_nil,
        List.length_append, Text.length_bytes, Text.length_bytes]
      omega
    · rw [Step.width, Text.bytes_append, hempty, List.append_nil, Text.length_bytes]
      omega

/-- From every place that the scan comes to before the new line. -/
theorem alikeFrom (h : IsComment options blanks text)
    (hrules : ∀ rule ∈ options.commandRules, KeepsNone rule)
    (hline : StartsLine (Text.bytes front) (Text.bytes front).length)
    (houtside : Outside options (Text.bytes (front ++ rest)) front.utf8ByteSize) (path : String)
    (hscan : Scanned options (Text.bytes (front ++ rest)) offset
      (Text.bytes (front ++ rest)).length) (hle : offset ≤ front.utf8ByteSize) :
    AlikeFrom options path front (commentLine blanks text) rest offset := by
  induction hleft : front.utf8ByteSize - offset using Nat.strong_induction_on
    generalizing offset with
  | _ left ih =>
      by_cases hall : ∀ b ∈ (Text.bytes front).drop offset, isPlain b = true
      · rcases Nat.eq_or_lt_of_le hle with rfl | hlt
        · exact h.alikeFrom_front hline path rest
        · exact h.alikeFrom_plain hline (hscan.cuts (Text.encoded_bytes _)).1 hlt hall path
      · have hmark : ∃ b ∈ (Text.bytes front).drop offset, ¬ isPlain b = true := by
          simpa using hall
        have hlt : offset < front.utf8ByteSize := lt_length_of_mem_drop hmark
        have hend : offset < (Text.bytes (front ++ rest)).length := by
          rw [Text.bytes_append, List.length_append, Text.length_bytes]
          omega
        have hwidth : 0 < (stepAt options (Text.bytes (front ++ rest)) offset
            (Text.bytes (front ++ rest)).length).width := Scanned.width_pos hend
        refine h.alikeFrom_step hrules hline hmark rfl ?_ fun hinside =>
          ih _ ?_ (hscan.next hend) hinside rfl
        · rw [Classical.or_iff_not_imp_right]
          exact fun hover => houtside offset _ hscan hlt (Nat.not_le.1 hover)
        · omega

end IsComment

/-! ## Runs -/

/-- A line with nothing but a comment changes nothing but offsets: with it and without it the
runs fail with the same error, or have the same text, the same paths and the same origins,
those behind the line moved by its length. -/
theorem expand_commentLine (files : MemoryFiles) {options : Options} {name blanks text : String}
    {front rest : String} (hrules : ∀ rule ∈ options.commandRules, KeepsNone rule)
    (hline : StartsLine (Text.bytes front) (Text.bytes front).length)
    (houtside : Outside options (Text.bytes (front ++ rest)) front.utf8ByteSize)
    (hcomment : IsComment options blanks text) (main : String) :
    Matched
      (Relocated (shift (Path.normalize (Path.join files.root name)) front.utf8ByteSize
        (front ++ commentLine blanks text).utf8ByteSize))
      (expand (files.insert name (front ++ rest)).toFileSet options main)
      (expand (files.insert name (front ++ commentLine blanks text ++ rest)).toFileSet options
        main) := by
  rw [String.append_assoc]
  exact (Edited.insert files name _ _).expand_relocated (fun _ hother => shift_of_ne hother)
    (hcomment.alikeFrom hrules hline houtside _ .start (Nat.zero_le _)) main

def droppingOptions : Options := { Options.standard with commandRules := [.dropped "todo" 1] }

/-- A line with a note, and a line that ends with an inclusion. -/
def splitFront : String := "a\\todo\x7bn\x7d\n"

def splitBack : String := " b\\input\x7bs\x7d"

def splitFiles (front : String) : MemoryFiles :=
  (MemoryFiles.ofList "/" [("s.tex", "c")]).insert "main.tex" (front ++ splitBack)

def splitFlat (front : String) : Flat where
  text := "a\n bc"
  files := #[⟨"/main.tex", front ++ splitBack⟩, ⟨"/s.tex", "c"⟩]
  origins := (provenances 0 0 1 ++ provenances 0 9 10 ++
    provenances 0 front.utf8ByteSize (front.utf8ByteSize + 2) ++ provenances 1 0 1).toArray

def splitPlaces : List (Nat × Nat) := [(0, 21), (1, 21), (9, 21), (12, 21), (21, 21)]

theorem covers_splitPlaces :
    Covers droppingOptions (Text.bytes (splitFront ++ splitBack)) splitPlaces :=
  ⟨by decide +kernel, by decide +kernel⟩

theorem outside_splitBack :
    Outside droppingOptions (Text.bytes (splitFront ++ splitBack)) splitFront.utf8ByteSize := by
  have hall : ∀ place ∈ splitPlaces, place.1 < splitFront.utf8ByteSize →
      splitFront.utf8ByteSize < place.1 +
        (stepAt droppingOptions (Text.bytes (splitFront ++ splitBack)) place.1 place.2).width →
      place.1 = 9 ∧ place.2 = 21 := by
    decide +kernel
  intro offset limit hscan hlt hover
  obtain ⟨rfl, rfl⟩ := hall _ (covers_splitPlaces.mem hscan) hlt hover
  exact ⟨3, by decide +kernel⟩

theorem isComment_splitting : IsComment droppingOptions "  " " c" where
  blanks := by decide +kernel
  neutral := by decide +kernel
  oneLine := by decide +kernel
  reads := by decide +kernel

/-- An indented comment between the two lines, in the middle of a run of plain bytes. -/
theorem commentLine_splitFront :
    expand (splitFiles splitFront).toFileSet droppingOptions "main.tex" =
        .ok (splitFlat splitFront) ∧
      expand (splitFiles (splitFront ++ commentLine "  " " c")).toFileSet droppingOptions
          "main.tex" = .ok (splitFlat (splitFront ++ commentLine "  " " c")) ∧
      Matched
        (Relocated (shift "/main.tex" splitFront.utf8ByteSize
          (splitFront ++ commentLine "  " " c").utf8ByteSize))
        (expand (splitFiles splitFront).toFileSet droppingOptions "main.tex")
        (expand (splitFiles (splitFront ++ commentLine "  " " c")).toFileSet droppingOptions
          "main.tex") := by
  have hrules : ∀ rule ∈ droppingOptions.commandRules, KeepsNone rule := by
    intro rule hrule index hindex
    rw [List.mem_singleton.1 hrule] at hindex
    cases hindex
  have hline : StartsLine (Text.bytes splitFront) (Text.bytes splitFront).length := by
    decide +kernel
  have hpath : Path.normalize (Path.join "/" "main.tex") = "/main.tex" := by decide +kernel
  refine ⟨by decide +kernel, by decide +kernel, ?_⟩
  rw [← hpath]
  exact expand_commentLine (MemoryFiles.ofList "/" [("s.tex", "c")]) hrules hline
    outside_splitBack isComment_splitting "main.tex"

end LatexOrigins.Flat
