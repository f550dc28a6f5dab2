import LatexOrigins.Markup.Symbol

/-!
# Spans

How far the bytes at the front pass a test: a span ends at the first byte that fails it,
or with the bytes. Behind a part of a span the rest of it stands, and what comes after a
byte that fails does not count.
-/

namespace LatexOrigins.Markup

variable {bytes l : List UInt8} {offset n : Nat} {b : UInt8}

theorem lt_length (h : bytes[offset]? = some b) : offset < bytes.length :=
  (List.getElem?_eq_some_iff.1 h).1

theorem drop_eq_cons (h : bytes[offset]? = some b) :
    bytes.drop offset = b :: bytes.drop (offset + 1) := by
  obtain ⟨hlt, rfl⟩ := List.getElem?_eq_some_iff.1 h
  exact List.drop_eq_getElem_cons hlt

theorem spanLength_cons_of_pos {test : UInt8 → Bool} (hb : test b = true) (l : List UInt8) :
    spanLength test (b :: l) = spanLength test l + 1 := by
  rw [spanLength, List.takeWhile_cons_of_pos hb, List.length_cons, spanLength]

theorem spanLength_cons_of_neg {test : UInt8 → Bool} (hb : ¬ test b = true) (l : List UInt8) :
    spanLength test (b :: l) = 0 := by
  rw [spanLength, List.takeWhile_cons_of_neg hb, List.length_nil]

theorem takeWhile_drop {test : UInt8 → Bool} (h : n ≤ spanLength test l) :
    (l.drop n).takeWhile test = (l.takeWhile test).drop n := by
  induction n generalizing l with
  | zero => rfl
  | succ n ih =>
      cases l with
      | nil => rfl
      | cons b rest =>
          by_cases hb : test b = true
          · rw [spanLength_cons_of_pos hb] at h
            rw [List.takeWhile_cons_of_pos hb, List.drop_succ_cons, List.drop_succ_cons,
              ih (Nat.le_of_succ_le_succ h)]
          · rw [spanLength_cons_of_neg hb] at h
            exact absurd h (Nat.not_succ_le_zero n)

theorem spanLength_drop {test : UInt8 → Bool} (h : n ≤ spanLength test l) :
    spanLength test (l.drop n) = spanLength test l - n := by
  rw [spanLength, takeWhile_drop h, List.length_drop, spanLength]

theorem spanLength_eq {test : UInt8 → Bool} (hfront : ∀ c ∈ l.take n, test c = true)
    (hb : l[n]? = some b) (hstop : ¬ test b = true) : spanLength test l = n := by
  have hlength : (l.take n).length = n := List.length_take_of_le (Nat.le_of_lt (lt_length hb))
  have hsplit : l = l.take n ++ b :: l.drop (n + 1) := by
    rw [← drop_eq_cons hb, List.take_append_drop]
  rw [hsplit, spanLength, List.takeWhile_append_of_pos hfront, List.takeWhile_cons_of_neg hstop,
    List.append_nil, hlength]

theorem spanLength_append_of_stop {test : UInt8 → Bool} {others : List UInt8}
    (hpass : ∀ c ∈ l, test c = true) (hstop : ∀ c ∈ others.head?, ¬ test c = true) :
    spanLength test (l ++ others) = l.length := by
  rw [spanLength, List.takeWhile_append_of_pos hpass]
  cases others with
  | nil => rw [List.takeWhile_nil, List.append_nil]
  | cons c others => rw [List.takeWhile_cons_of_neg (hstop c rfl), List.append_nil]

theorem take_wordWidth {others : List UInt8} (hword : ∀ c ∈ l, isLetter c = true)
    (hstop : ∀ c ∈ others.head?, ¬ isLetter c = true) :
    (l ++ others).take (wordWidth (l ++ others)) = l := by
  rw [wordWidth, spanLength_append_of_stop hword hstop, List.take_left]

theorem spanLength_mono {test wider : UInt8 → Bool} (h : ∀ b, test b = true → wider b = true)
    (l : List UInt8) : spanLength test l ≤ spanLength wider l := by
  induction l with
  | nil => exact Nat.le_refl _
  | cons b rest ih =>
      by_cases hb : test b = true
      · rw [spanLength_cons_of_pos hb, spanLength_cons_of_pos (h b hb)]
        exact Nat.succ_le_succ ih
      · rw [spanLength_cons_of_neg hb]
        exact Nat.zero_le _

theorem spanLength_append (test : UInt8 → Bool) (l others : List UInt8) :
    spanLength test (l ++ others) =
      if spanLength test l = l.length then l.length + spanLength test others
      else spanLength test l := by
  unfold spanLength
  rw [List.takeWhile_append]
  split
  · exact List.length_append
  · rfl

theorem spanLength_lt {test : UInt8 → Bool} (hb : b ∈ l) (hstop : ¬ test b = true) :
    spanLength test l < l.length := by
  refine Nat.lt_of_le_of_ne (spanLength_le test l) fun hall => hstop ?_
  have hwhole : l.takeWhile test = l := (List.takeWhile_prefix test).eq_of_length hall
  rw [← hwhole] at hb
  exact List.all_eq_true.1 List.all_takeWhile b hb

theorem spanLength_append_of_lt {test : UInt8 → Bool} (h : spanLength test l < l.length)
    (others : List UInt8) : spanLength test (l ++ others) = spanLength test l := by
  rw [spanLength_append, if_neg (Nat.ne_of_lt h)]

end LatexOrigins.Markup
