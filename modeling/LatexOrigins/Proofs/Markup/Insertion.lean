import LatexOrigins.Proofs.Markup.Balanced
import LatexOrigins.Proofs.Markup.Cut
import LatexOrigins.Proofs.Markup.Span

/-!
# Inserting bytes that close nothing

Some bytes end a line and are followed by others. What is measured at their front and ends
within them has the same width whatever follows. Of groups, though, it has to be known that
they end there: a group that stays open is closed by what follows. If that is put off by bytes
without a brace, a bracket or a backslash, then a group that ends within the line still does,
and one that is never closed still is not.
-/

namespace LatexOrigins.Markup

/-- The bytes end with a line break. -/
def EndsLine (l : List UInt8) : Prop := l.getLast? = some lineBreak

/-- Bytes that neither open nor close a group and escape nothing. -/
def Neutral (m : List UInt8) : Prop :=
  ∀ b ∈ m, b ≠ backslash ∧ b ≠ leftBrace ∧ b ≠ rightBrace ∧ b ≠ leftBracket ∧ b ≠ rightBracket

instance (m : List UInt8) : Decidable (Neutral m) :=
  inferInstanceAs (Decidable (∀ b ∈ m, _))

variable {l m rest : List UInt8} {left right : UInt8} {depth braces depth' braces' n : Nat}

/-! ## Ends of lines -/

namespace EndsLine

theorem exists_init (h : EndsLine l) : ∃ init, l = init ++ [lineBreak] :=
  List.getLast?_eq_some_iff.1 h

theorem ne_nil (h : EndsLine l) : l ≠ [] := by
  rintro rfl
  cases h

theorem drop (h : EndsLine l) (hn : n < l.length) : EndsLine (l.drop n) := by
  rw [EndsLine, List.getLast?_drop, if_neg (by omega)]
  exact h

theorem drop_eq_nil_or (h : EndsLine l) (n : Nat) : l.drop n = [] ∨ EndsLine (l.drop n) := by
  by_cases hlt : n < l.length
  · exact Or.inr (h.drop hlt)
  · exact Or.inl (List.drop_eq_nil_of_le (Nat.not_lt.1 hlt))

theorem of_cons {b : UInt8} (h : EndsLine (b :: l)) (hb : b ≠ lineBreak) : EndsLine l := by
  cases l with
  | nil => exact absurd (Option.some.inj h) hb
  | cons c others => rwa [EndsLine, List.getLast?_cons_cons] at h

theorem spanLength_append (h : EndsLine l) (test : UInt8 → Bool) (htest : test lineBreak = false)
    (rest : List UInt8) :
    spanLength test (l ++ rest) = spanLength test l ∧ spanLength test l < l.length := by
  have hlt : spanLength test l < l.length :=
    spanLength_lt (List.mem_of_getLast? h) (by simp [htest])
  exact ⟨spanLength_append_of_lt hlt rest, hlt⟩

theorem restOfLine_append (h : EndsLine l) (rest : List UInt8) :
    restOfLine (l ++ rest) = restOfLine l ∧ (restOfLine l).length < l.length := by
  have hlt : (restOfLine l).length < l.length :=
    (h.spanLength_append (fun b => b ≠ lineBreak) (by decide) []).2
  unfold restOfLine at hlt ⊢
  exact ⟨by rw [List.takeWhile_append, if_neg (Nat.ne_of_lt hlt)], hlt⟩

theorem starWidth_append (h : EndsLine l) (rest : List UInt8) :
    starWidth (l ++ rest) = starWidth l ∧ starWidth l < l.length := by
  obtain ⟨b, others, rfl⟩ := List.exists_cons_of_ne_nil h.ne_nil
  refine ⟨rfl, ?_⟩
  unfold starWidth
  split
  · next hstar =>
    obtain rfl : b = star := Option.some.inj hstar
    have hpos := List.length_pos_iff.2 (h.of_cons (by decide)).ne_nil
    rw [List.length_cons]
    omega
  · exact Nat.succ_pos _

theorem charWidth_append (h : EndsLine l) (hrest : ∀ b ∈ rest.head?, isContinuation b = false) :
    charWidth (l ++ rest) = charWidth l ∧ charWidth l ≤ l.length := by
  obtain ⟨b, others, rfl⟩ := List.exists_cons_of_ne_nil h.ne_nil
  cases others with
  | nil =>
      have hspan : spanLength isContinuation rest = 0 := by
        cases rest with
        | nil => rfl
        | cons c rest => exact spanLength_cons_of_neg (by simp [hrest c rfl]) rest
      refine ⟨?_, Nat.le_refl _⟩
      rw [List.singleton_append, charWidth, hspan]
      rfl
  | cons c others =>
      have hline : EndsLine (c :: others) := by rwa [EndsLine, List.getLast?_cons_cons] at h
      obtain ⟨hspan, hlt⟩ := hline.spanLength_append isContinuation (by decide) rest
      rw [List.cons_append, charWidth, charWidth, hspan, List.length_cons]
      exact ⟨rfl, by omega⟩

theorem verbArgument_append (h : EndsLine l) (rest : List UInt8) :
    verbArgument (l ++ rest) = verbArgument l ∧
      ∀ g, verbArgument l = some g → g.width ≤ l.length := by
  obtain ⟨hstar, hlt⟩ := h.starWidth_append rest
  obtain ⟨b, others, hothers⟩ := List.exists_cons_of_ne_nil (h.drop hlt).ne_nil
  have hlength := congrArg List.length hothers
  rw [List.length_drop, List.length_cons] at hlength
  unfold verbArgument
  simp only [hstar, List.drop_append_of_le_length (Nat.le_of_lt hlt), hothers, List.cons_append]
  by_cases hgraphic : (isGraphic b && !isLetter b) = true
  · rw [if_pos hgraphic, if_pos hgraphic]
    have hbreak : b ≠ lineBreak := by
      rintro rfl
      exact absurd hgraphic (by decide)
    have hends : EndsLine others := EndsLine.of_cons (hothers ▸ h.drop hlt) hbreak
    obtain ⟨hspan, hspanlt⟩ := hends.spanLength_append (fun c => c ≠ b && c ≠ lineBreak)
      (by simp) rest
    obtain ⟨c, more, hmore⟩ := List.exists_cons_of_ne_nil (hends.drop hspanlt).ne_nil
    simp only [hspan, List.drop_append_of_le_length (Nat.le_of_lt hspanlt), hmore,
      List.cons_append]
    refine ⟨rfl, fun g hg => ?_⟩
    split at hg
    · obtain rfl := Option.some.inj hg
      simp only [Group.width]
      omega
    · cases hg
  · rw [if_neg hgraphic, if_neg hgraphic]
    exact ⟨rfl, fun g hg => by cases hg⟩

end EndsLine

/-! ## The delimiter that closes -/

/-- What the search for the delimiter that closes finds in some bytes, whatever follows. -/
inductive Reads (left right : UInt8) (depth braces : Nat) (l : List UInt8) : Prop where
  | closes (n : Nat) (hn : n < l.length)
      (h : ∀ rest, closing left right depth braces (l ++ rest) = some n)
  | goesOn (depth' braces' : Nat) (h : ∀ rest, closing left right depth braces (l ++ rest) =
      (closing left right depth' braces' rest).map (· + l.length))

theorem Reads.behind (front : List UInt8)
    (h : ∀ rest, closing left right depth braces (front ++ rest) =
      (closing left right depth' braces' rest).map (· + front.length))
    (hrest : Reads left right depth' braces' l) : Reads left right depth braces (front ++ l) := by
  cases hrest with
  | closes n hn hcloses =>
      refine .closes (n + front.length) (by rw [List.length_append]; omega) fun rest => ?_
      rw [List.append_assoc, h, hcloses, Option.map_some]
  | goesOn depth'' braces'' hgoes =>
      refine .goesOn depth'' braces'' fun rest => ?_
      rw [List.append_assoc, h, hgoes, Option.map_map, List.length_append]
      congr 1
      funext n
      simp only [Function.comp_apply]
      omega

theorem Reads.cons {b : UInt8}
    (h : ∀ rest, closing left right depth braces (b :: rest) =
      (closing left right depth' braces' rest).map (· + 1))
    (hrest : Reads left right depth' braces' l) : Reads left right depth braces (b :: l) :=
  .behind [b] h hrest

theorem getLast?_ne_of_cons {b c : UInt8} (h : (b :: l).getLast? ≠ some c) :
    l.getLast? ≠ some c := by
  cases l with
  | nil => simp
  | cons d others => rwa [List.getLast?_cons_cons] at h

/-- The search reads bytes that do not end with a backslash without what follows. -/
theorem reads (left right : UInt8) (depth braces : Nat) (hlast : l.getLast? ≠ some backslash) :
    Reads left right depth braces l := by
  fun_induction closing left right depth braces l with
  | case1 depth braces => exact .goesOn depth braces fun rest => by simp
  | case2 => exact absurd rfl hlast
  | case3 depth braces b rest ih =>
      exact .behind [backslash, b] (closing_escape left right depth braces b)
        (ih (getLast?_ne_of_cons (getLast?_ne_of_cons hlast)))
  | case4 depth braces b rest hback hopen ih =>
      refine .cons (fun _ => ?_) (ih (getLast?_ne_of_cons hlast))
      rw [closing_cons hback, if_pos hopen]
  | case5 depth braces b rest hback hopen hclose hdepth =>
      refine .closes 0 (Nat.succ_pos _) fun _ => ?_
      rw [List.cons_append, closing_cons hback, if_neg hopen, if_pos hclose, if_pos hdepth]
  | case6 depth braces b rest hback hopen hclose hdepth ih =>
      refine .cons (fun _ => ?_) (ih (getLast?_ne_of_cons hlast))
      rw [closing_cons hback, if_neg hopen, if_pos hclose, if_neg hdepth]
  | case7 depth braces rest hback hopen hclose ih =>
      refine .cons (fun _ => ?_) (ih (getLast?_ne_of_cons hlast))
      rw [closing_cons hback, if_neg hopen, if_neg hclose, if_pos rfl]
  | case8 depth braces rest hback hopen hclose hleft ih =>
      refine .cons (fun _ => ?_) (ih (getLast?_ne_of_cons hlast))
      rw [closing_cons hback, if_neg hopen, if_neg hclose, if_neg hleft, if_pos rfl]
  | case9 depth braces b rest hback hopen hclose hleft hright ih =>
      refine .cons (fun _ => ?_) (ih (getLast?_ne_of_cons hlast))
      rw [closing_cons hback, if_neg hopen, if_neg hclose, if_neg hleft, if_neg hright]

/-- The delimiters of one of the two kinds of groups. -/
inductive Delimiters : UInt8 → UInt8 → Prop where
  | braces : Delimiters leftBrace rightBrace
  | brackets : Delimiters leftBracket rightBracket

theorem Neutral.closing_append (h : Neutral m) (hkind : Delimiters left right)
    (depth braces : Nat) (rest : List UInt8) : closing left right depth braces (m ++ rest) =
      (closing left right depth braces rest).map (· + m.length) := by
  induction m with
  | nil => simp
  | cons b m ih =>
      obtain ⟨⟨hback, hleft, hright, hleft', hright'⟩, hrest⟩ := List.forall_mem_cons.1 h
      have hbyte : closing left right depth braces (b :: (m ++ rest)) =
          (closing left right depth braces (m ++ rest)).map (· + 1) := by
        cases hkind with
        | braces => exact closing_byte hback hleft hright hleft hright _ _ _
        | brackets => exact closing_byte hback hleft' hright' hleft hright _ _ _
      rw [List.cons_append, hbyte, ih hrest, Option.map_map]
      rfl

/-! ## Groups -/

/-- A group that ends within the line, and one that is never closed. -/
theorem delimited_insert (hl : EndsLine l) (hm : Neutral m) (hkind : Delimiters left right)
    (hinside : ∀ g, delimited left right (l ++ rest) = some g → g.width ≤ l.length) :
    delimited left right (l ++ (m ++ rest)) = delimited left right (l ++ rest) := by
  obtain ⟨hblanks, hlt⟩ := hl.spanLength_append isInlineBlank (by decide) rest
  have hblanks' := (hl.spanLength_append isInlineBlank (by decide) (m ++ rest)).1
  obtain ⟨b, others, hothers⟩ := List.exists_cons_of_ne_nil (hl.drop hlt).ne_nil
  have hlast : others.getLast? ≠ some backslash := by
    apply getLast?_ne_of_cons (b := b)
    rw [← hothers, hl.drop hlt]
    decide
  have hlength := congrArg List.length hothers
  rw [List.length_drop, List.length_cons] at hlength
  unfold delimited at hinside ⊢
  simp only [hblanks, hblanks', List.drop_append_of_le_length (Nat.le_of_lt hlt), hothers,
    List.cons_append] at hinside ⊢
  split
  · next hleft =>
    rw [if_pos hleft] at hinside
    cases reads left right 1 0 hlast with
    | closes n hn h => rw [h, h]
    | goesOn depth braces h =>
        rw [h] at hinside
        rw [h, h, hm.closing_append hkind]
        cases hrest : closing left right depth braces rest with
        | none => rfl
        | some n =>
            have hwidth := hinside _ (by rw [hrest]; rfl)
            simp only [Group.width] at hwidth
            omega
  · rfl

theorem Group.width_lt {g : Group} (hl : EndsLine l) (hkind : Delimiters left right)
    (h : delimited left right (l ++ rest) = some g) (hle : g.width ≤ l.length) :
    g.width < l.length := by
  refine Nat.lt_of_le_of_ne hle fun hwidth => ?_
  obtain ⟨init, rfl⟩ := hl.exists_init
  have hstop := (delimited_ends h).2
  have hlast : g.stop = init.length := by
    rw [Group.width, List.length_append, List.length_singleton] at hwidth
    omega
  rw [hlast, List.append_assoc, List.getElem?_append_right (Nat.le_refl _), Nat.sub_self] at hstop
  obtain rfl : lineBreak = right := Option.some.inj hstop
  cases hkind

theorem optionsWidth_eq (l : List UInt8) :
    optionsWidth l = (bracketed l).elim 0 fun g => g.width + optionsWidth (l.drop g.width) := by
  rw [optionsWidth]
  split
  · next h => rw [h]; rfl
  · next g h => rw [h]; rfl

theorem optionsWidth_insert {l : List UInt8} (hl : EndsLine l) (hm : Neutral m)
    (hinside : optionsWidth (l ++ rest) ≤ l.length) :
    optionsWidth (l ++ (m ++ rest)) = optionsWidth (l ++ rest) ∧
      optionsWidth (l ++ rest) < l.length := by
  have hpos := List.length_pos_iff.2 hl.ne_nil
  have hwidth (g : Group) (h : bracketed (l ++ rest) = some g) : g.width ≤ l.length := by
    rw [optionsWidth_eq, h, Option.elim_some] at hinside
    omega
  have hsame : bracketed (l ++ (m ++ rest)) = bracketed (l ++ rest) :=
    delimited_insert hl hm .brackets hwidth
  rw [optionsWidth_eq (l ++ (m ++ rest)), hsame]
  rw [optionsWidth_eq] at hinside ⊢
  cases hg : bracketed (l ++ rest) with
  | none => exact ⟨rfl, hpos⟩
  | some g =>
      have hlt := Group.width_lt hl .brackets hg (hwidth g hg)
      rw [hg] at hinside
      simp only [Option.elim_some, List.drop_append_of_le_length (Nat.le_of_lt hlt)] at hinside ⊢
      obtain ⟨hrest, hrestlt⟩ := optionsWidth_insert (hl.drop hlt) hm
        (by rw [List.length_drop]; omega)
      rw [List.length_drop] at hrestlt
      exact ⟨by rw [hrest], by omega⟩
termination_by l.length
decreasing_by
  have hpos := g.width_pos
  rw [List.length_drop]
  omega

end LatexOrigins.Markup
