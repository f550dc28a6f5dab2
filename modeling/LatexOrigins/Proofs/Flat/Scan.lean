import LatexOrigins.Proofs.Flat.Step
import LatexOrigins.Proofs.Markup.Span

/-!
# The scan of a content

The moves for a content come from a scan that stands at one offset after the other
and looks no further than to the end of the range that it scans: the content as a
whole, or an argument that an unwrapped command keeps. It always stands at a cut,
and what holds of every place that it comes to is shown by one induction, along
the scan and into the arguments.
-/

namespace LatexOrigins.Flat

open Markup
open Text (Encoded)

/-- The step at an offset, in a range that ends at a limit. -/
def stepAt (options : Options) (bytes : List UInt8) (offset limit : Nat) : Step :=
  step options (bytes.take offset).reverse (limit - offset) (bytes.drop offset)

/-- The moves for a range of the bytes of a content. -/
def movesBetween (options : Options) (bytes : List UInt8) (offset limit : Nat) : List Move :=
  movesFrom options offset (bytes.take offset).reverse (bytes.drop offset) (limit - offset)

theorem cut_room {bytes : List UInt8} {offset limit : Nat} (hl : Cut bytes limit)
    (hlt : offset < limit) : Cut (bytes.drop offset) (limit - offset) := by
  refine ⟨?_, ?_⟩
  · rw [List.length_drop]
    exact Nat.sub_le_sub_right hl.le_length offset
  · rw [List.drop_drop, Nat.add_sub_cancel' (Nat.le_of_lt hlt)]
    exact hl.encoded

theorem found_of_cuts (options : Options) {bytes : List UInt8} {offset limit : Nat}
    (ho : Cut bytes offset) (hl : Cut bytes limit) (hlt : offset < limit) :
    Found options (bytes.take offset).reverse (bytes.drop offset) (limit - offset)
      (stepAt options bytes offset limit) := by
  refine step_found options _ _ ho.encoded ?_
  have hle := hl.le_length
  rw [ne_eq, List.drop_eq_nil_iff]
  omega

/-- The offsets that the scan of a content comes to, each with the end of the range
that is scanned there. -/
inductive Scanned (options : Options) (bytes : List UInt8) : Nat → Nat → Prop where
  | start : Scanned options bytes 0 bytes.length
  | next {offset limit : Nat} (h : Scanned options bytes offset limit) (hlt : offset < limit) :
      Scanned options bytes (offset + (stepAt options bytes offset limit).width) limit
  | inner {offset limit : Nat} {bounds : Nat × Nat} (h : Scanned options bytes offset limit)
      (hlt : offset < limit) (hkept : (stepAt options bytes offset limit).kept = some bounds) :
      Scanned options bytes (offset + bounds.1) (offset + bounds.2)

variable {options : Options} {bytes : List UInt8} {offset limit : Nat}

theorem moves_eq (options : Options) (content : String) :
    moves options content =
      movesBetween options (Text.bytes content) 0 (Text.bytes content).length :=
  rfl

theorem movesBetween_of_le (h : limit ≤ offset) : movesBetween options bytes offset limit = [] := by
  rw [movesBetween, movesFrom]
  exact dif_pos (Or.inl (Nat.sub_eq_zero_of_le h))

theorem reverse_take_add (bytes : List UInt8) (offset n : Nat) :
    ((bytes.drop offset).take n).reverse ++ (bytes.take offset).reverse =
      (bytes.take (offset + n)).reverse := by
  rw [← List.reverse_append, List.take_add]

theorem movesBetween_of_lt (h : offset < limit) (hle : limit ≤ bytes.length) :
    movesBetween options bytes offset limit =
      (stepAt options bytes offset limit).movesAt offset ++
        ((stepAt options bytes offset limit).kept.elim [] fun bounds =>
          movesBetween options bytes (offset + bounds.1) (offset + bounds.2)) ++
        movesBetween options bytes (offset + (stepAt options bytes offset limit).width) limit := by
  have hroom : limit - offset ≠ 0 := by omega
  have hrest : bytes.drop offset ≠ [] := by
    rw [ne_eq, List.drop_eq_nil_iff]
    omega
  rw [movesBetween, movesFrom, dif_neg (not_or.2 ⟨hroom, hrest⟩)]
  simp only [stepAt, reverse_take_add, List.drop_drop, Nat.sub_sub]
  congr 2
  split
  · next hkept =>
    rw [hkept]
    rfl
  · next bounds hkept =>
    rw [hkept, Option.elim_some, movesBetween, Nat.add_sub_add_left]

/-! ## Steps of a whole content -/

variable {b : UInt8}

theorem isPlain_iff : isPlain b = true ↔ b ≠ backslash ∧ b ≠ percent := by
  rw [isPlain, Bool.and_eq_true, decide_eq_true_eq, decide_eq_true_eq]

theorem isPlain_of_test {test : UInt8 → Bool} (hback : test backslash = false)
    (hpercent : test percent = false) (b : UInt8) (h : test b = true) : isPlain b = true := by
  rw [isPlain_iff]
  constructor
  · rintro rfl
    rw [hback] at h
    cases h
  · rintro rfl
    rw [hpercent] at h
    cases h

theorem step_plain (hplain : isPlain b = true) (before rest : List UInt8) :
    step options before (b :: rest).length (b :: rest) =
      .keep (spanLength isPlain (b :: rest)) := by
  rw [isPlain_iff] at hplain
  rw [step, if_neg hplain.2, if_neg hplain.1, Nat.min_eq_left (spanLength_le _ _)]

theorem step_backslash (before : List UInt8) (room : Nat) (rest : List UInt8) :
    step options before room (backslash :: rest) =
      controlStep options (backslash :: rest) rest := by
  rw [step, if_neg (by decide), if_pos rfl]

theorem stepAt_length (options : Options) (bytes : List UInt8) (offset : Nat) :
    stepAt options bytes offset bytes.length =
      step options (bytes.take offset).reverse (bytes.drop offset).length
        (bytes.drop offset) := by
  rw [stepAt, List.length_drop]

theorem stepAt_plain (hb : bytes[offset]? = some b) (hplain : isPlain b = true) :
    stepAt options bytes offset bytes.length = .keep (spanLength isPlain (bytes.drop offset)) := by
  rw [stepAt_length, drop_eq_cons hb, step_plain hplain]

theorem movesBetween_plain (hb : bytes[offset]? = some b) (hplain : isPlain b = true) :
    movesBetween options bytes offset bytes.length =
      .keep offset (offset + spanLength isPlain (bytes.drop offset)) ::
        movesBetween options bytes (offset + spanLength isPlain (bytes.drop offset))
          bytes.length := by
  rw [movesBetween_of_lt (lt_length hb) (Nat.le_refl _), stepAt_plain hb hplain]
  rfl

theorem stepAt_comment (hpercent : bytes[offset]? = some percent) :
    ∃ indentation width, stepAt options bytes offset bytes.length =
        .comment indentation (min width (bytes.length - offset)) ∧
      CommentAt options (bytes.take offset).reverse (bytes.drop offset) indentation width := by
  obtain ⟨indentation, width, hstep, hcomment⟩ :=
    exists_commentAt options (bytes.take offset).reverse (bytes.drop offset)
  refine ⟨indentation, width, ?_, hcomment⟩
  rw [stepAt, drop_eq_cons hpercent] at *
  rw [step, if_pos rfl, hstep]

theorem movesBetween_of_keepsNone (hrules : ∀ rule ∈ options.commandRules, KeepsNone rule)
    (hlt : offset < bytes.length) :
    movesBetween options bytes offset bytes.length =
      (stepAt options bytes offset bytes.length).movesAt offset ++
        movesBetween options bytes (offset + (stepAt options bytes offset bytes.length).width)
          bytes.length := by
  have hkept : (stepAt options bytes offset bytes.length).kept = none :=
    step_kept_eq_none hrules _ _ _
  rw [movesBetween_of_lt hlt (Nat.le_refl _), hkept, Option.elim_none, List.append_nil]

/-! ## Places of the scan -/

namespace Scanned

theorem cuts (h : Scanned options bytes offset limit) (hencoded : Encoded bytes) :
    Cut bytes offset ∧ Cut bytes limit := by
  induction h with
  | start => exact ⟨Cut.zero hencoded, Cut.length bytes⟩
  | @next offset limit _ hlt ih =>
      have hfound := found_of_cuts options ih.1 ih.2 hlt
      exact ⟨ih.1.add (hfound.cut ih.1.encoded (cut_room ih.2 hlt)), ih.2⟩
  | inner _ hlt hkept ih =>
      have hfound := found_of_cuts options ih.1 ih.2 hlt
      have hbounds := hfound.kept hkept
      exact ⟨ih.1.add hbounds.start, ih.1.add hbounds.stop⟩

theorem found (h : Scanned options bytes offset limit) (hencoded : Encoded bytes)
    (hlt : offset < limit) :
    Found options (bytes.take offset).reverse (bytes.drop offset) (limit - offset)
      (stepAt options bytes offset limit) :=
  found_of_cuts options (h.cuts hencoded).1 (h.cuts hencoded).2 hlt

theorem limit_le (h : Scanned options bytes offset limit) (hencoded : Encoded bytes) :
    limit ≤ bytes.length :=
  (h.cuts hencoded).2.le_length

theorem width_pos (hlt : offset < limit) : 0 < (stepAt options bytes offset limit).width :=
  step_width_pos options _ (Nat.sub_ne_zero_of_lt hlt)

/-- What holds of a range with nothing left to scan, and of a place if it holds of
what the step there leads to, holds of every place of the scan. -/
theorem induct (hencoded : Encoded bytes) {motive : Nat → Nat → Prop} {offset limit : Nat}
    (done : ∀ offset limit, limit ≤ offset → motive offset limit)
    (step : ∀ offset limit, Scanned options bytes offset limit → offset < limit →
      (∀ bounds, (stepAt options bytes offset limit).kept = some bounds →
        motive (offset + bounds.1) (offset + bounds.2)) →
      motive (offset + (stepAt options bytes offset limit).width) limit → motive offset limit)
    (h : Scanned options bytes offset limit) : motive offset limit := by
  by_cases hlt : offset < limit
  · refine step offset limit h hlt (fun bounds hkept => ?_) ?_
    · exact (h.inner hlt hkept).induct hencoded done step
    · exact (h.next hlt).induct hencoded done step
  · exact done offset limit (Nat.not_lt.1 hlt)
termination_by bytes.length - offset
decreasing_by
  · have hle := h.limit_le hencoded
    have hpos := step_kept_pos hkept
    omega
  · have hle := h.limit_le hencoded
    have hpos : 0 < (stepAt options bytes offset limit).width := width_pos hlt
    omega

end Scanned

/-! ## Bytes in front of a command -/

/-- The moves for bytes that mean nothing. -/
def plainMoves (front : String) : List Move :=
  if front = "" then [] else [.keep 0 front.utf8ByteSize]

theorem stepAt_plainFront {a l : List UInt8} (hplain : ∀ c ∈ a, isPlain c = true)
    (hback : l.head? = some backslash) (hsome : a ≠ []) :
    stepAt options (a ++ l) 0 (a ++ l).length = .keep a.length := by
  obtain ⟨c, others, rfl⟩ := List.exists_cons_of_ne_nil hsome
  rw [stepAt_plain rfl (hplain c List.mem_cons_self), List.drop_zero,
    spanLength_append_of_stop hplain fun stop hstop => ?_]
  obtain rfl := Option.some.inj (hback.symm.trans hstop)
  decide

theorem movesBetween_front {front : String} {l : List UInt8}
    (hplain : ∀ c ∈ Text.bytes front, isPlain c = true) (hback : l.head? = some backslash) :
    movesBetween options (Text.bytes front ++ l) 0 (Text.bytes front ++ l).length =
      plainMoves front ++ movesBetween options (Text.bytes front ++ l) front.utf8ByteSize
        (Text.bytes front ++ l).length := by
  unfold plainMoves
  split
  · next hempty =>
    subst hempty
    rfl
  · next hsome =>
    have hbytes : Text.bytes front ≠ [] := fun hnil => hsome (Text.bytes_injective hnil)
    have hlength : 0 < (Text.bytes front ++ l).length := by
      rw [List.length_append]
      exact Nat.add_pos_left (List.length_pos_iff.2 hbytes) _
    rw [movesBetween_of_lt hlength (Nat.le_refl _), stepAt_plainFront hplain hback hbytes,
      Text.length_bytes]
    simp only [Step.movesAt, Step.width, Step.kept, Option.elim_none, List.append_nil,
      Nat.zero_add]

theorem Scanned.front (options : Options) {front : String} {l : List UInt8}
    (hplain : ∀ c ∈ Text.bytes front, isPlain c = true) (hback : l.head? = some backslash) :
    Scanned options (Text.bytes front ++ l) front.utf8ByteSize
      (Text.bytes front ++ l).length := by
  by_cases hempty : front = ""
  · subst hempty
    exact .start
  · have hbytes : Text.bytes front ≠ [] := fun hnil => hempty (Text.bytes_injective hnil)
    have hlength : 0 < (Text.bytes front ++ l).length := by
      rw [List.length_append]
      exact Nat.add_pos_left (List.length_pos_iff.2 hbytes) _
    have hnext : Scanned options (Text.bytes front ++ l)
        (0 + (stepAt options (Text.bytes front ++ l) 0 (Text.bytes front ++ l).length).width)
        (Text.bytes front ++ l).length := Scanned.start.next hlength
    rwa [stepAt_plainFront hplain hback hbytes, Step.width, Nat.zero_add] at hnext

end LatexOrigins.Flat
