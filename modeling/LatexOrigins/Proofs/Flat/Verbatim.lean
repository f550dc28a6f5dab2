import LatexOrigins.Proofs.Flat.Repeat
import LatexOrigins.Proofs.Markup.Verbatim

/-!
# Verbatim text in a flat source

The scan of a content passes over a `\verb` command in one step, so that nothing in its
argument means anything, and no comment behind it takes back what stands before. So a main
file that starts with bytes that mean nothing and a `\verb` command is flattened to a text
that starts with the same bytes, each under its own offset.
-/

namespace LatexOrigins.Flat

open Markup

variable {options : Options} {front back : String}

/-! ## Bytes in front -/

theorem settle_plainMoves (front : String) (moves : List Move) (htaken : takenBack moves = 0) :
    settle (plainMoves front ++ moves) = plainMoves front ++ settle moves := by
  unfold plainMoves
  split
  · rfl
  · rw [List.singleton_append, settle, htaken, Nat.sub_zero, List.singleton_append]

theorem plainMoves_appended {files : FileSet} {enter : Flat → String → Except LoadError Flat}
    {path content : String} {id : Nat} {flat middle : Flat}
    (h : (plainMoves front).foldlM (perform files enter path id content) flat = .ok middle) :
    Appended flat middle (.piece content id 0 front.utf8ByteSize) := by
  unfold plainMoves at h
  split at h
  · next hempty =>
    obtain rfl := Results.pure_eq_ok.1 h
    subst hempty
    exact .refl _
  · rw [List.foldlM_cons] at h
    obtain ⟨kept, hkept, h⟩ := Results.bind_eq_ok.1 h
    obtain rfl := Results.pure_eq_ok.1 h
    exact .keep (Results.mapError_eq_ok.1 hkept)

/-! ## The command -/

variable (v : Verbatim)

theorem stepAt_verbatim (options : Options) (a l : List UInt8) :
    stepAt options (a ++ (Text.bytes v.source ++ l)) a.length
        (a ++ (Text.bytes v.source ++ l)).length = .keep v.source.utf8ByteSize := by
  have hdrop := v.drop_source_append l
  have harg := v.verbArgument_source l
  have hstop := v.not_letter_behind (Text.bytes v.text ++ v.byte :: l)
  rw [stepAt, List.drop_left, v.utf8ByteSize_source]
  rw [v.bytes_source_append] at hdrop ⊢
  rw [step_backslash]
  -- Of what stands behind the name it matters only that no letter comes first.
  generalize Text.bytes v.mark ++ v.byte :: (Text.bytes v.text ++ v.byte :: l) = tail at *
  have htake : (Text.bytes "verb" ++ tail).take (wordWidth (Text.bytes "verb" ++ tail)) =
      Text.bytes "verb" := take_wordWidth (by decide +kernel) hstop
  have hname : 1 + (Text.bytes "verb").length = 5 := by decide +kernel
  have hsome : Text.bytes "verb" ≠ [] := by decide +kernel
  unfold controlStep
  simp only [htake, hname, hdrop, harg, if_neg hsome, beq_self_eq_true, if_true]

variable (hplain : ∀ b ∈ Text.bytes front, isPlain b = true)
include hplain

theorem moves_verbatim (options : Options) (back : String) :
    moves options (front ++ v.source ++ back) =
        plainMoves front ++ .keep front.utf8ByteSize (front ++ v.source).utf8ByteSize ::
          movesBetween options (Text.bytes (front ++ v.source ++ back))
            (front ++ v.source).utf8ByteSize (Text.bytes (front ++ v.source ++ back)).length ∧
      Scanned options (Text.bytes (front ++ v.source ++ back))
        (front ++ v.source).utf8ByteSize (Text.bytes (front ++ v.source ++ back)).length := by
  have hbytes : Text.bytes (front ++ v.source ++ back) =
      Text.bytes front ++ (Text.bytes v.source ++ Text.bytes back) := by
    rw [Text.bytes_append, Text.bytes_append, List.append_assoc]
  have hback : (Text.bytes v.source ++ Text.bytes back).head? = some backslash := by
    rw [v.bytes_source_append]
    rfl
  have hstep := stepAt_verbatim v options (Text.bytes front) (Text.bytes back)
  have hlt : (Text.bytes front).length <
      (Text.bytes front ++ (Text.bytes v.source ++ Text.bytes back)).length := by
    rw [v.bytes_source_append, List.length_append, List.length_cons]
    omega
  have hscanned := Scanned.front options hplain hback
  rw [moves_eq, hbytes, movesBetween_front hplain hback, String.utf8ByteSize_append,
    ← Text.length_bytes front]
  refine ⟨?_, ?_⟩
  · rw [movesBetween_of_lt hlt (Nat.le_refl _), hstep]
    rfl
  · have hnext := hscanned.next hlt
    rwa [← Text.length_bytes front, hstep] at hnext

theorem settled_behind_verbatim (options : Options) (back : String) :
    Tidy (Text.bytes (front ++ v.source ++ back))
        (movesBetween options (Text.bytes (front ++ v.source ++ back))
          (front ++ v.source).utf8ByteSize (Text.bytes (front ++ v.source ++ back)).length) ∧
      takenBack (movesBetween options (Text.bytes (front ++ v.source ++ back))
        (front ++ v.source).utf8ByteSize (Text.bytes (front ++ v.source ++ back)).length) = 0 := by
  have hscanned := (moves_verbatim v hplain options back).2
  have hsolid : Solid (Text.bytes (front ++ v.source ++ back))
      (front.utf8ByteSize + (5 + v.group.width)) := by
    refine Solid.of_drop (Solid.of_drop ?_)
    rw [Text.bytes_append, Text.bytes_append, List.append_assoc, ← Text.length_bytes front,
      List.drop_left, v.drop_source_append]
    exact verbArgument_solid (v.verbArgument_source _)
  refine settled_of_fresh (hscanned.tidyFrom (Text.encoded_bytes _)) fun _ => ?_
  rw [String.utf8ByteSize_append, v.utf8ByteSize_source]
  exact indentAt_of_solid hsolid

/-- The flat source of a main file that starts with bytes that mean nothing and a `\verb` command
starts with the same bytes, each under its own offset in the main file. -/
theorem expand_verbatim {files : FileSet} {main path : String} {flat : Flat}
    (hmain : findFile files main none = .ok path)
    (hread : files.read path = .ok (front ++ v.source ++ back))
    (h : expand files options main = .ok flat) :
    flat.files[0]? = some ⟨path, front ++ v.source ++ back⟩ ∧
      ∃ block, Appended empty flat ((Block.piece (front ++ v.source ++ back) 0 0
        (front ++ v.source).utf8ByteSize).append block) := by
  obtain ⟨found, hfound, h⟩ := Results.bind_eq_ok.1 h
  obtain rfl := Except.ok.inj (hmain.symm.trans hfound)
  obtain ⟨hopen, -, depth, hdepth, -, -⟩ := expandFile_eq_ok h
  -- Once the moves are settled the text only grows, so what the first two keep stays in front.
  obtain ⟨htidy, htaken⟩ := settled_behind_verbatim v hplain options back
  rw [hdepth, expandFile_settled hopen hread aligned_empty,
    (moves_verbatim v hplain options back).1, settle_plainMoves _ _ rfl, settle, htaken,
    Nat.sub_zero, List.foldlM_append] at h
  obtain ⟨before, hbefore, h⟩ := Results.bind_eq_ok.1 h
  rw [List.foldlM_cons] at h
  obtain ⟨kept, hkept, h⟩ := Results.bind_eq_ok.1 h
  have hfront := plainMoves_appended hbefore
  have hkept := Results.mapError_eq_ok.1 hkept
  have haligned : Aligned kept := by
    refine Aligned.keep ?_ hkept
    exact Results.foldlM_invariant Aligned
      (fun _ _ _ _ hinner hperform => perform_aligned expandFile_aligned hinner hperform)
      (aligned_empty.enter _ _) hbefore
  obtain ⟨block, hblock⟩ := foldlM_appended htidy.clean haligned h
  have hpieces := (hfront.append (.keep hkept)).append hblock
  rw [Block.piece_append _ _ (Nat.zero_le _) (by rw [String.utf8ByteSize_append]; omega)] at hpieces
  have hgrown := hpieces.files
  have hadded := hpieces.of_enter
  rw [enter_empty] at hgrown hadded
  exact ⟨getElem?_files_of_grown hgrown rfl, block, hadded⟩

end LatexOrigins.Flat
