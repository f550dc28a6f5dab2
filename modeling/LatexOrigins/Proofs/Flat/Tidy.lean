import LatexOrigins.Proofs.Flat.Indentation

/-!
# Tidy moves

The moves for a content are tidy: what a move cuts out of the content lies between
cuts, and a move that takes bytes back stands just behind a move that kept them.
-/

namespace LatexOrigins.Flat

open Markup
open Text (Encoded)

/-- How many bytes the first of some moves takes back. -/
def takenBack : List Move → Nat
  | .comment _ (some count) :: _ => count
  | _ => 0

inductive Tidy (bytes : List UInt8) : List Move → Prop where
  | nil : Tidy bytes []
  | keep {start stop : Nat} {rest : List Move} (hstart : Cut bytes start)
      (hstop : Cut bytes (stop - takenBack rest)) (hall : Cut bytes stop)
      (htaken : start + takenBack rest ≤ stop) (h : Tidy bytes rest) :
      Tidy bytes (.keep start stop :: rest)
  | comment {offset : Nat} {indentation : Option Nat} {rest : List Move}
      (htaken : takenBack rest = 0) (h : Tidy bytes rest) :
      Tidy bytes (.comment offset indentation :: rest)
  | follow {start stop : Nat} {rest : List Move} (hstart : Cut bytes start)
      (hstop : Cut bytes stop) (hle : start ≤ stop) (htaken : takenBack rest = 0)
      (h : Tidy bytes rest) : Tidy bytes (.follow start stop :: rest)

variable {options : Options} {bytes : List UInt8} {offset limit : Nat}

theorem takenBack_append (moves : List Move) {others : List Move} (h : takenBack others = 0) :
    takenBack (moves ++ others) = takenBack moves := by
  cases moves with
  | nil => exact h
  | cons move rest =>
      cases move with
      | comment _ indentation => cases indentation <;> rfl
      | keep | follow => rfl

theorem Tidy.append {moves others : List Move} (h : Tidy bytes moves) (hothers : Tidy bytes others)
    (htaken : takenBack others = 0) : Tidy bytes (moves ++ others) := by
  induction h with
  | nil => exact hothers
  | keep hstart hstop hall hle _ ih =>
      rw [← takenBack_append _ htaken] at hstop hle
      exact Tidy.keep hstart hstop hall hle ih
  | comment hzero _ ih =>
      rw [← takenBack_append _ htaken] at hzero
      exact Tidy.comment hzero ih
  | follow hstart hstop hle hzero _ ih =>
      rw [← takenBack_append _ htaken] at hzero
      exact Tidy.follow hstart hstop hle hzero ih

/-- Where a run of bytes that mean nothing starts there is no indentation. -/
def Fresh (bytes : List UInt8) (offset : Nat) : Prop :=
  ∀ b, bytes[offset]? = some b → isPlain b = true → indentAt bytes offset = 0

/-- The scan from an offset on makes tidy moves, and the first takes back no more than
the indentation there. -/
def TidyFrom (options : Options) (bytes : List UInt8) (offset limit : Nat) : Prop :=
  Tidy bytes (movesBetween options bytes offset limit) ∧
    takenBack (movesBetween options bytes offset limit) ≤ indentAt bytes offset

theorem tidyFrom_of_le (h : limit ≤ offset) : TidyFrom options bytes offset limit := by
  rw [TidyFrom, movesBetween_of_le h]
  exact ⟨Tidy.nil, Nat.zero_le _⟩

theorem settled_of_fresh (h : Fresh bytes offset → TidyFrom options bytes offset limit)
    (hindent : offset < limit → indentAt bytes offset = 0) :
    Tidy bytes (movesBetween options bytes offset limit) ∧
      takenBack (movesBetween options bytes offset limit) = 0 := by
  by_cases hlt : offset < limit
  · have hzero := hindent hlt
    obtain ⟨htidy, htaken⟩ := h fun _ _ _ => hzero
    exact ⟨htidy, Nat.le_zero.1 (hzero ▸ htaken)⟩
  · rw [movesBetween_of_le (Nat.not_lt.1 hlt)]
    exact ⟨Tidy.nil, rfl⟩

/-- Behind a run of bytes that mean nothing the indentation may be taken back that
the run itself holds. -/
theorem Tidy.run {width : Nat} (hencoded : Encoded bytes) (hcut : Cut bytes offset)
    (hnext : Cut bytes (offset + width)) (hzero : indentAt bytes offset = 0)
    (h : TidyFrom options bytes (offset + width) limit) :
    Tidy bytes (.keep offset (offset + width) ::
      movesBetween options bytes (offset + width) limit) := by
  have hindent := indentAt_add_le bytes offset width
  refine Tidy.keep hcut (cut_of_le_indentAt hencoded hnext h.2) hnext ?_ h.1
  have htaken := h.2
  omega

theorem Tidy.word {width : Nat} (hcut : Cut bytes offset) (hnext : Cut bytes (offset + width))
    (hindent : indentAt bytes (offset + width) = 0)
    (h : Fresh bytes (offset + width) → TidyFrom options bytes (offset + width) limit) :
    Tidy bytes (.keep offset (offset + width) ::
      movesBetween options bytes (offset + width) limit) := by
  obtain ⟨htidy, htaken⟩ := settled_of_fresh h fun _ => hindent
  refine Tidy.keep hcut ?_ hnext ?_ htidy
  · rwa [htaken]
  · rw [htaken]
    exact Nat.le_add_right _ _

theorem takenBack_commentAt {indentation : Option Nat} {width : Nat} {rest : List Move}
    (h : CommentAt options (bytes.take offset).reverse (bytes.drop offset) indentation width) :
    takenBack (.comment offset indentation :: rest) ≤ indentAt bytes offset := by
  cases h with
  | trailing => exact Nat.zero_le _
  | alone h | pause h =>
      rw [indentAt_of_indented h]
      exact Nat.le_refl _

theorem indentAt_commentAt {indentation : Option Nat} {width : Nat} (hcut : Cut bytes offset)
    (hpercent : bytes[offset]? = some percent)
    (h : CommentAt options (bytes.take offset).reverse (bytes.drop offset) indentation width)
    (hlt : offset + width < bytes.length) : indentAt bytes (offset + width) = 0 := by
  cases indentation with
  | none =>
      cases h with
      | trailing =>
          have hdrop := List.drop_eq_getElem_cons (List.getElem?_eq_some_iff.1 hpercent).1
          rw [(List.getElem?_eq_some_iff.1 hpercent).2] at hdrop
          refine indentAt_trailing hpercent ?_
          rw [hdrop]
          exact restOfLine_percent_length _
  | some count =>
      have hrest : width < (bytes.drop offset).length := by
        rw [List.length_drop]
        omega
      exact indentAt_of_solid (h.solid hcut.encoded hrest).of_drop

theorem Scanned.tidyFrom (hencoded : Encoded bytes) (h : Scanned options bytes offset limit) :
    Fresh bytes offset → TidyFrom options bytes offset limit := by
  refine Scanned.induct (motive := fun o l => Fresh bytes o → TidyFrom options bytes o l)
    hencoded (fun _ _ hle _ => tidyFrom_of_le hle) ?_ h
  intro offset limit h hlt ihinner ihnext hfresh
  have hcut := (h.cuts hencoded).1
  have hnext := ((h.next hlt).cuts hencoded).1
  have hlimit := h.limit_le hencoded
  have hfound := h.found hencoded hlt
  rw [TidyFrom, movesBetween_of_lt hlt hlimit]
  generalize stepAt options bytes offset limit = s at *
  cases hfound with
  | @run b hb hplain =>
      rw [List.getElem?_drop, Nat.add_zero] at hb
      refine ⟨Tidy.run hencoded hcut hnext (hfresh b hb hplain) ?_, Nat.zero_le _⟩
      by_cases hend : limit ≤ offset + min (spanLength isPlain (bytes.drop offset)) (limit - offset)
      · exact tidyFrom_of_le hend
      · -- The run stops at a byte that may mean something.
        apply ihnext
        intro c hc hcplain
        rw [Step.width, Nat.min_eq_left (by omega), ← List.getElem?_drop] at hc
        rw [Text.test_of_getElem?_spanLength hc] at hcplain
        cases hcplain
  | symbol hback =>
      rw [List.getElem?_drop, Nat.add_zero] at hback
      have hindent := indentAt_symbol hback
      rw [← List.drop_drop] at hindent
      exact ⟨Tidy.word hcut hnext hindent ihnext, Nat.zero_le _⟩
  | word hback _ hsolid =>
      exact ⟨Tidy.word hcut hnext (indentAt_of_solid hsolid.of_drop) ihnext, Nat.zero_le _⟩
  | @comment indentation width hpercent hcomment =>
      rw [List.getElem?_drop, Nat.add_zero] at hpercent
      obtain ⟨htidy, htaken⟩ := settled_of_fresh ihnext fun hinside => by
        rw [Step.width] at hinside ⊢
        rw [Nat.min_eq_left (by omega)] at hinside ⊢
        exact indentAt_commentAt hcut hpercent hcomment (by omega)
      exact ⟨Tidy.comment htaken htidy, takenBack_commentAt hcomment⟩
  | follow hback hstart hstop hle _ hsolid =>
      obtain ⟨htidy, htaken⟩ := settled_of_fresh ihnext fun _ => indentAt_of_solid hsolid.of_drop
      exact ⟨Tidy.follow (hcut.add hstart) (hcut.add hstop) (Nat.add_le_add_left hle _) htaken htidy,
        Nat.zero_le _⟩
  | @unwrap kept width hback _ hsolid hkept =>
      obtain ⟨htidy, htaken⟩ := settled_of_fresh ihnext fun _ => indentAt_of_solid hsolid.of_drop
      cases kept with
      | none => exact ⟨htidy, htaken ▸ Nat.zero_le _⟩
      | some bounds =>
          obtain ⟨hinner, hzero⟩ := settled_of_fresh (ihinner bounds rfl) fun _ =>
            indentAt_of_solid (hkept bounds rfl).solid.of_drop
          refine ⟨hinner.append htidy htaken, ?_⟩
          change takenBack (movesBetween _ _ _ _ ++ _) ≤ _
          rw [takenBack_append _ htaken, hzero]
          exact Nat.zero_le _

theorem tidy_moves (options : Options) (content : String) :
    Tidy (Text.bytes content) (moves options content) ∧ takenBack (moves options content) = 0 := by
  have hzero : indentAt (Text.bytes content) 0 = 0 := rfl
  rw [moves_eq]
  exact settled_of_fresh (Scanned.start.tidyFrom (Text.encoded_bytes content)) fun _ => hzero

end LatexOrigins.Flat
