import LatexOrigins.Proofs.Flat.Scan

/-!
# Inclusion directives

Where a move follows an inclusion a directive stands in the content: a command that
includes, and behind it, in braces that match, a name with any blanks around it.
-/

namespace LatexOrigins.Markup

theorem delimited_parts {left right : UInt8} {l : List UInt8} {g : Group}
    (h : delimited left right l = some g) :
    ∃ blanks after, l = blanks ++ left :: (g.content l ++ right :: after) ∧
      blanks.all isInlineBlank = true ∧
      closing left right 1 0 (g.content l ++ right :: after) = some (g.content l).length := by
  unfold delimited at h
  simp only at h
  split at h
  · cases h
  · next b rest hdrop =>
    split at h
    · next hb =>
      subst hb
      obtain ⟨n, hn, rfl⟩ := Option.map_eq_some_iff.1 h
      obtain ⟨hlt, hright⟩ := List.getElem?_eq_some_iff.1 (closing_eq_some hn)
      have hcontent : Group.content ⟨spanLength isInlineBlank l + 1,
          spanLength isInlineBlank l + 1 + n, by omega, by omega⟩ l = rest.take n := by
        rw [Group.content, ← List.drop_drop, hdrop, List.drop_succ_cons, List.drop_zero,
          Nat.add_sub_cancel_left]
      have hrest : rest = rest.take n ++ right :: rest.drop (n + 1) := by
        rw [← hright, ← List.drop_eq_getElem_cons hlt, List.take_append_drop]
      have hlength : (rest.take n).length = n := List.length_take_of_le (Nat.le_of_lt hlt)
      have hblanks : l.takeWhile isInlineBlank = l.take (spanLength isInlineBlank l) :=
        List.prefix_iff_eq_take.1 (List.takeWhile_prefix _)
      refine ⟨l.takeWhile isInlineBlank, rest.drop (n + 1), ?_, List.all_takeWhile, ?_⟩
      · rw [hcontent, ← hrest, ← hdrop, hblanks, List.take_append_drop]
      · rw [hcontent, ← hrest, hlength, hn]
    · cases h

end LatexOrigins.Markup

namespace LatexOrigins.Flat

open Markup
open Text (Encoded)

/-- A content holds an inclusion directive for a name. -/
inductive Directive (options : Options) (content name : String) : Prop where
  | intro {before blanks argument after : List UInt8} {command : String}
      (hcontent : Text.bytes content = before ++ backslash ::
        (Text.bytes command ++ (blanks ++ leftBrace :: (argument ++ rightBrace :: after))))
      (hcommand : command ∈ options.includeCommands)
      (hletters : (Text.bytes command).all isLetter = true)
      (hblanks : blanks.all isInlineBlank = true)
      (hcloses : closing leftBrace rightBrace 1 0 (argument ++ rightBrace :: after) =
        some argument.length)
      (hname : Text.bytes name = Text.trim argument)

variable {options : Options} {bytes l : List UInt8} {offset limit start stop : Nat} {move : Move}

theorem Scanned.exists_of_mem (hencoded : Encoded bytes) (h : Scanned options bytes offset limit)
    (hmove : move ∈ movesBetween options bytes offset limit) :
    ∃ o l, Scanned options bytes o l ∧ o < l ∧ move ∈ (stepAt options bytes o l).movesAt o := by
  refine Scanned.induct (motive := fun o l => move ∈ movesBetween options bytes o l →
    ∃ o l, Scanned options bytes o l ∧ o < l ∧ move ∈ (stepAt options bytes o l).movesAt o)
    hencoded (fun _ _ hle hmem => ?_) ?_ h hmove
  · rw [movesBetween_of_le hle] at hmem
    cases hmem
  · intro o l h hlt hinner hnext hmem
    rw [movesBetween_of_lt hlt (h.limit_le hencoded), List.mem_append, List.mem_append] at hmem
    rcases hmem with (hmem | hmem) | hmem
    · exact ⟨o, l, h, hlt, hmem⟩
    · cases hkept : (stepAt options bytes o l).kept with
      | none =>
          rw [hkept] at hmem
          cases hmem
      | some bounds =>
          rw [hkept] at hmem
          exact hinner bounds hkept hmem
    · exact hnext hmem

theorem mem_movesAt_follow {s : Step} (h : .follow start stop ∈ s.movesAt offset) :
    ∃ a b width, s = .follow a b width ∧ start = offset + a ∧ stop = offset + b := by
  cases s with
  | follow a b width =>
      obtain ⟨rfl, rfl⟩ := Move.follow.inj (List.mem_singleton.1 h)
      exact ⟨a, b, width, rfl, rfl, rfl⟩
  | keep | comment => cases List.mem_singleton.1 h
  | unwrap => cases h

theorem controlStep_eq_follow {rest : List UInt8} {a b width : Nat}
    (h : controlStep options l rest = .follow a b width) :
    ∃ command g, command ∈ options.includeCommands ∧
      Text.bytes command = rest.take (wordWidth rest) ∧
      braced (l.drop (1 + (Text.bytes command).length)) = some g ∧
      followStep (1 + (Text.bytes command).length) g l = .follow a b width := by
  unfold controlStep at h
  simp only at h
  split at h
  · cases h
  · split at h
    · split at h <;> cases h
    · split at h
      · cases h
      · split at h
        · next hany =>
          obtain ⟨command, hmem, hword⟩ := List.any_eq_true.1 hany
          rw [beq_iff_eq] at hword
          rw [← hword] at h
          split at h
          · next g hg => exact ⟨command, g, hmem, hword, hg, h⟩
          · cases h
        · cases h

theorem step_eq_follow {before : List UInt8} {room a b width : Nat}
    (h : step options before room l = .follow a b width) :
    ∃ rest, l = backslash :: rest ∧ controlStep options l rest = .follow a b width := by
  unfold step at h
  split at h
  · cases h
  · next first rest =>
    split at h
    · obtain ⟨indentation, whole, hcomment, -⟩ := exists_commentAt options before (first :: rest)
      rw [hcomment] at h
      cases h
    · split at h
      · next hback => exact ⟨rest, by rw [hback], h⟩
      · cases h

theorem followStep_name {name a b width : Nat} {g : Group}
    (h : followStep name g l = .follow a b width) :
    (l.drop a).take (b - a) = Text.trim (g.content (l.drop name)) := by
  unfold followStep at h
  simp only at h
  obtain ⟨rfl, rfl, -⟩ := Step.follow.inj h
  generalize hinner : g.content (l.drop name) = inner
  have hbehind : inner.drop (Text.leadingBlanks inner) <+:
      (l.drop (name + g.start)).drop (Text.leadingBlanks inner) := by
    rw [← hinner, Group.content, List.drop_drop, List.drop_take]
    exact List.take_prefix _ _
  rw [Text.drop_leadingBlanks] at hbehind
  have htrim := List.prefix_iff_eq_take.1 ((Text.trimEnd_prefix _).trans hbehind)
  rw [Nat.add_sub_cancel_left, ← List.drop_drop]
  exact htrim.symm

/-- Where a move follows an inclusion there is a directive for the name that stands in
the bounds of the move. -/
theorem directive_of_mem {content name : String}
    (hmove : .follow start stop ∈ moves options content)
    (hname : Text.slice? content start stop = some name) : Directive options content name := by
  have hencoded := Text.encoded_bytes content
  rw [moves_eq] at hmove
  obtain ⟨o, limit, hscanned, hlt, hmem⟩ := Scanned.start.exists_of_mem hencoded hmove
  obtain ⟨a, b, width, hstep, rfl, rfl⟩ := mem_movesAt_follow hmem
  obtain ⟨rest, hrest, hcontrol⟩ := step_eq_follow hstep
  obtain ⟨command, g, hcommand, hword, hg, hfollow⟩ := controlStep_eq_follow hcontrol
  have hbytes := followStep_name hfollow
  obtain ⟨blanks, after, hparts, hblanks, hcloses⟩ := delimited_parts hg
  have hlength : (Text.bytes command).length = wordWidth rest := by
    rw [hword]
    exact List.length_take_of_le (spanLength_le _ _)
  have hletters : Text.bytes command = rest.takeWhile isLetter :=
    hword.trans (List.prefix_iff_eq_take.1 (List.takeWhile_prefix _)).symm
  -- Behind the backslash stands the command, and the group is looked for behind it.
  have hcontent : Text.bytes content = (Text.bytes content).take o ++
      backslash :: (Text.bytes command ++ ((Text.bytes content).drop o).drop
        (1 + (Text.bytes command).length)) := by
    rw [hrest, Nat.add_comm 1, List.drop_succ_cons, hlength, hword, List.take_append_drop, ← hrest,
      List.take_append_drop]
  rw [hparts] at hcontent
  refine .intro hcontent hcommand ?_ hblanks hcloses ?_
  · rw [hletters]
    exact List.all_takeWhile
  · rw [Text.bytes_of_slice? hname, ← hbytes, List.drop_drop, Nat.add_sub_add_left]

end LatexOrigins.Flat
