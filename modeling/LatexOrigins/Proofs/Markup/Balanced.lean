import LatexOrigins.Markup.Group

/-!
# Balanced bytes

What may stand in a braced argument: bytes in which every brace has its partner, where a
backslash takes the byte behind it along. The search for the brace that closes a group passes
over such bytes, whatever else they hold.
-/

namespace LatexOrigins.Markup

inductive Balanced : List UInt8 → Prop where
  | nil : Balanced []
  | byte {b : UInt8} {l : List UInt8} (hback : b ≠ backslash) (hleft : b ≠ leftBrace)
      (hright : b ≠ rightBrace) (h : Balanced l) : Balanced (b :: l)
  | escape (b : UInt8) {l : List UInt8} (h : Balanced l) : Balanced (backslash :: b :: l)
  | group {inner l : List UInt8} (hinner : Balanced inner) (h : Balanced l) :
      Balanced (leftBrace :: (inner ++ rightBrace :: l))

theorem Balanced.of_bytes {l : List UInt8}
    (h : ∀ b ∈ l, b ≠ backslash ∧ b ≠ leftBrace ∧ b ≠ rightBrace) : Balanced l := by
  induction l with
  | nil => exact .nil
  | cons b l ih =>
      obtain ⟨⟨hback, hleft, hright⟩, hrest⟩ := List.forall_mem_cons.1 h
      exact .byte hback hleft hright (ih hrest)

theorem Balanced.append {l others : List UInt8} (h : Balanced l) (hothers : Balanced others) :
    Balanced (l ++ others) := by
  induction h with
  | nil => exact hothers
  | byte hback hleft hright _ ih => exact .byte hback hleft hright ih
  | escape b _ ih => exact .escape b ih
  | group hinner _ _ ih =>
      rw [List.cons_append, List.append_assoc, List.cons_append]
      exact .group hinner ih

/-! ## The search for the delimiter that closes -/

variable {left right b : UInt8} {depth : Nat}

theorem closing_escape (left right : UInt8) (depth braces : Nat) (b : UInt8) (l : List UInt8) :
    closing left right depth braces (backslash :: b :: l) =
      (closing left right depth braces l).map (· + 2) := by
  rw [closing.eq_def]
  simp only [if_true]

theorem closing_cons (hback : b ≠ backslash) (left right : UInt8) (depth braces : Nat)
    (l : List UInt8) :
    closing left right depth braces (b :: l) =
      if b = left && (left = leftBrace || braces = 0) then
        (closing left right (depth + 1) braces l).map (· + 1)
      else if b = right && (right = rightBrace || braces = 0) then
        if depth ≤ 1 then some 0 else (closing left right (depth - 1) braces l).map (· + 1)
      else if b = leftBrace then (closing left right depth (braces + 1) l).map (· + 1)
      else if b = rightBrace then (closing left right depth (braces - 1) l).map (· + 1)
      else (closing left right depth braces l).map (· + 1) := by
  rw [closing.eq_def]
  simp only [if_neg hback]

theorem closing_byte (hback : b ≠ backslash) (hopen : b ≠ left) (hclose : b ≠ right)
    (hleft : b ≠ leftBrace) (hright : b ≠ rightBrace) (depth braces : Nat) (l : List UInt8) :
    closing left right depth braces (b :: l) =
      (closing left right depth braces l).map (· + 1) := by
  rw [closing_cons hback]
  simp [hopen, hclose, hleft, hright]

theorem closing_leftBrace (depth braces : Nat) (l : List UInt8) :
    closing leftBrace rightBrace depth braces (leftBrace :: l) =
      (closing leftBrace rightBrace (depth + 1) braces l).map (· + 1) := by
  rw [closing_cons (by decide)]
  simp

theorem closing_rightBrace (depth braces : Nat) (l : List UInt8) :
    closing leftBrace rightBrace depth braces (rightBrace :: l) =
      if depth ≤ 1 then some 0
      else (closing leftBrace rightBrace (depth - 1) braces l).map (· + 1) := by
  rw [closing_cons (by decide)]
  simp [leftBrace, rightBrace]

/-- The brace that closes a group is looked for behind all that is balanced. -/
theorem Balanced.closing_append {u : List UInt8} (h : Balanced u) (hdepth : 0 < depth)
    (braces : Nat) (l : List UInt8) :
    closing leftBrace rightBrace depth braces (u ++ l) =
      (closing leftBrace rightBrace depth braces l).map (· + u.length) := by
  induction h generalizing depth l with
  | nil => simp
  | byte hback hleft hright _ ih =>
      rw [List.cons_append, closing_byte hback hleft hright hleft hright, ih hdepth,
        Option.map_map]
      rfl
  | escape b _ ih =>
      rw [List.cons_append, List.cons_append, closing_escape, ih hdepth, Option.map_map]
      rfl
  | @group inner u _ _ ihinner ih =>
      have hlength : (leftBrace :: (inner ++ rightBrace :: u)).length =
          u.length + 1 + inner.length + 1 := by
        rw [List.length_cons, List.length_append, List.length_cons]
        omega
      rw [List.cons_append, List.append_assoc, List.cons_append, closing_leftBrace,
        ihinner (Nat.succ_pos depth), closing_rightBrace, if_neg (by omega),
        Nat.succ_sub_one, ih hdepth, hlength, Option.map_map, Option.map_map, Option.map_map]
      congr 1
      funext n
      simp only [Function.comp_apply]
      omega

/-! ## Groups at the front -/

variable {u : List UInt8}

theorem braced_balanced (h : Balanced u) (l : List UInt8) :
    braced (leftBrace :: (u ++ rightBrace :: l)) =
      some ⟨1, 1 + u.length, by omega, by omega⟩ := by
  have hblanks : spanLength isInlineBlank (leftBrace :: (u ++ rightBrace :: l)) = 0 := rfl
  unfold braced delimited
  simp only [hblanks, List.drop_zero, if_true, h.closing_append Nat.zero_lt_one,
    closing_rightBrace, Nat.le_refl, Option.map_some, Nat.zero_add]

theorem drop_group (u l : List UInt8) :
    (leftBrace :: (u ++ rightBrace :: l)).drop (1 + u.length + 1) = l := by
  have hsplit : leftBrace :: (u ++ rightBrace :: l) = (leftBrace :: (u ++ [rightBrace])) ++ l := by
    simp
  rw [hsplit, List.drop_left']
  simp only [List.length_cons, List.length_append, List.length_nil]
  omega

theorem starWidth_leftBrace (l : List UInt8) : starWidth (leftBrace :: l) = 0 := rfl

theorem optionsWidth_leftBrace (l : List UInt8) : optionsWidth (leftBrace :: l) = 0 := by
  have hnone : bracketed (leftBrace :: l) = none := rfl
  unfold optionsWidth
  split
  · rfl
  · next h =>
    rw [hnone] at h
    cases h

end LatexOrigins.Markup
