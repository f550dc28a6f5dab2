import LatexOrigins.Markup.Group
import LatexOrigins.Proofs.Markup.Span

/-!
# Searches for a closing

What a construct is closed with is searched for from its opening on, through a body that may
hold anything but that closing. A tag starts with a byte that does not come again in it, so no
occurrence can begin in the body and end behind it. Where a backslash takes the byte behind it
along, what counts are the places that stepping through the body comes to. The argument of
`\verb` ends at the first byte that is its delimiter. So each search finds the closing that is
written behind the body, whatever follows.
-/

namespace LatexOrigins.Markup

variable {close body others : List UInt8} {first delimiter : UInt8}

/-! ## Tags -/

/-- A tag is found behind a body that does not hold it. -/
theorem indexOf?_append (hfirst : first ∉ others) (hbody : ¬ first :: others <:+: body)
    (rest : List UInt8) :
    indexOf? (first :: others) (body ++ (first :: others ++ rest)) = some body.length := by
  induction body with
  | nil =>
      have hfront : (first :: others).isPrefixOf (first :: others ++ rest) = true :=
        List.isPrefixOf_iff_prefix.2 (List.prefix_append _ _)
      rw [List.nil_append, List.cons_append, indexOf?, ← List.cons_append, if_pos hfront]
      rfl
  | cons b body ih =>
      have hnot : ¬ first :: others <+: b :: (body ++ (first :: others ++ rest)) := by
        intro hprefix
        rw [List.cons_prefix_cons] at hprefix
        obtain ⟨rfl, htail⟩ := hprefix
        by_cases hinside : others.length ≤ body.length
        · -- The tag would stand in the body.
          have hshort := List.prefix_of_prefix_length_le htail (List.prefix_append body _) hinside
          exact hbody (List.cons_prefix_cons.2 ⟨rfl, hshort⟩).isInfix
        · -- The tag would go on where the one behind the body starts.
          have hlt : body.length < others.length := Nat.not_le.1 hinside
          have hbyte := List.prefix_iff_getElem?.1 htail body.length hlt
          rw [List.getElem?_append_right (Nat.le_refl _), Nat.sub_self] at hbyte
          obtain rfl : first = others[body.length] := Option.some.inj hbyte
          exact hfirst (List.getElem_mem hlt)
      have hrest := ih fun hinside => hbody (hinside.trans (List.suffix_cons b body).isInfix)
      rw [← List.isPrefixOf_iff_prefix] at hnot
      rw [List.cons_append, indexOf?, if_neg hnot, hrest]
      rfl

/-! ## Steps over escapes -/

/-- Stepping over some bytes, a backslash together with the byte behind it, comes to no
occurrence of a closing before the one that is written behind them. -/
inductive Unclosed (close : List UInt8) : List UInt8 → Prop where
  | nil : Unclosed close []
  | byte {b : UInt8} {body : List UInt8} (hback : b ≠ backslash)
      (hclose : ¬ close <+: b :: (body ++ close)) (h : Unclosed close body) :
      Unclosed close (b :: body)
  | escape {b : UInt8} {body : List UInt8}
      (hclose : ¬ close <+: backslash :: b :: (body ++ close)) (h : Unclosed close body) :
      Unclosed close (backslash :: b :: body)

theorem not_isPrefixOf_append (h : ¬ close <+: body ++ close) (rest : List UInt8) :
    ¬ close.isPrefixOf (body ++ (close ++ rest)) = true := by
  rw [List.isPrefixOf_iff_prefix]
  intro hprefix
  rw [← List.append_assoc] at hprefix
  refine h (List.prefix_of_prefix_length_le hprefix (List.prefix_append _ _) ?_)
  rw [List.length_append]
  exact Nat.le_add_left _ _

theorem Unclosed.unescapedIndexOf?_append (h : Unclosed close body) (hsome : close ≠ [])
    (rest : List UInt8) :
    unescapedIndexOf? close (body ++ (close ++ rest)) = some body.length := by
  induction h with
  | nil =>
      obtain ⟨b, others, rfl⟩ := List.exists_cons_of_ne_nil hsome
      have hfront : (b :: others).isPrefixOf (b :: others ++ rest) = true :=
        List.isPrefixOf_iff_prefix.2 (List.prefix_append _ _)
      rw [List.nil_append, List.cons_append, unescapedIndexOf?.eq_def]
      rw [List.cons_append] at hfront
      simp only [if_pos hfront, List.length_nil]
  | @byte b body hback hclose _ ih =>
      have hfront : ¬ close.isPrefixOf (b :: body ++ (close ++ rest)) = true :=
        not_isPrefixOf_append hclose rest
      rw [List.cons_append] at hfront ⊢
      rw [unescapedIndexOf?.eq_def]
      simp only [if_neg hfront, if_neg hback, ih, Option.map_some, List.length_cons]
  | @escape b body hclose _ ih =>
      have hfront : ¬ close.isPrefixOf (backslash :: b :: body ++ (close ++ rest)) = true :=
        not_isPrefixOf_append hclose rest
      rw [List.cons_append, List.cons_append] at hfront ⊢
      rw [unescapedIndexOf?.eq_def]
      simp only [if_neg hfront, if_true, ih, Option.map_some, List.length_cons]

/-- If the search finds no closing before the one behind some bytes, stepping comes to none. -/
theorem unclosed_of_unescapedIndexOf? (hsome : close ≠ []) : ∀ {body : List UInt8},
    unescapedIndexOf? close (body ++ close) = some body.length → Unclosed close body
  | [], _ => .nil
  | b :: body, h => by
      rw [List.cons_append, unescapedIndexOf?.eq_def] at h
      simp only at h
      split at h
      · cases h
      next hfront =>
      rw [List.isPrefixOf_iff_prefix] at hfront
      split at h
      · next hback =>
        subst hback
        cases body with
        | nil =>
            -- The backslash would take the first byte of the closing along.
            obtain ⟨c, others, rfl⟩ := List.exists_cons_of_ne_nil hsome
            obtain ⟨n, -, hn⟩ := Option.map_eq_some_iff.1 h
            cases hn
        | cons c body =>
            obtain ⟨n, hn, hlength⟩ := Option.map_eq_some_iff.1 h
            obtain rfl : n = body.length := Nat.add_right_cancel hlength
            exact .escape hfront (unclosed_of_unescapedIndexOf? hsome hn)
      · next hback =>
        obtain ⟨n, hn, hlength⟩ := Option.map_eq_some_iff.1 h
        obtain rfl : n = body.length := Nat.add_right_cancel hlength
        exact .byte hback hfront (unclosed_of_unescapedIndexOf? hsome hn)

theorem unclosed_iff (hsome : close ≠ []) :
    Unclosed close body ↔ unescapedIndexOf? close (body ++ close) = some body.length := by
  refine ⟨fun h => ?_, unclosed_of_unescapedIndexOf? hsome⟩
  have hfound := h.unescapedIndexOf?_append hsome []
  rwa [List.append_nil] at hfound

/-! ## Delimiters -/

theorem verbArgument_append {starred : List UInt8}
    (hstar : starred = [] ∧ delimiter ≠ star ∨ starred = [star])
    (hgraphic : isGraphic delimiter = true) (hletter : isLetter delimiter = false)
    (hbody : ∀ b ∈ body, b ≠ delimiter ∧ b ≠ lineBreak) (rest : List UInt8) :
    verbArgument (starred ++ delimiter :: (body ++ delimiter :: rest)) =
      some ⟨starred.length + 1, starred.length + 1 + body.length, by omega, by omega⟩ := by
  have hlead : starWidth (starred ++ delimiter :: (body ++ delimiter :: rest)) =
      starred.length := by
    rcases hstar with ⟨rfl, hne⟩ | rfl
    · simp [starWidth, hne]
    · rfl
  have hspan : spanLength (fun b => b ≠ delimiter && b ≠ lineBreak) (body ++ delimiter :: rest) =
      body.length := by
    refine spanLength_append_of_stop (fun b hb => ?_) fun b hb => ?_
    · simpa using hbody b hb
    · obtain rfl := Option.some.inj hb
      simp
  unfold verbArgument
  simp only [hlead, List.drop_left, hspan, hgraphic, hletter]
  simp

end LatexOrigins.Markup
