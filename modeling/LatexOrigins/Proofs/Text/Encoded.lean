import LatexOrigins.Markup.Symbol
import LatexOrigins.Text.Bytes

/-!
# Encoded texts

The bytes of a text are the encodings of its characters, one after the other.
What is left of them behind a cut is again of this form exactly where the cut
splits no character, so the boundaries of a text can be followed by looking at
bytes alone: a byte that does not continue a character starts one, and behind an
ASCII byte the next character starts.
-/

namespace LatexOrigins.Text

open Markup

/-- A byte sequence that encodes some characters. -/
def Encoded (l : List UInt8) : Prop := ∃ cs : List Char, cs.flatMap String.utf8EncodeChar = l

theorem bytes_eq_flatMap (s : String) : bytes s = s.toList.flatMap String.utf8EncodeChar := by
  conv => lhs; rw [← String.ofList_toList (s := s)]
  rw [bytes, String.toByteArray_ofList, List.utf8Encode, List.data_toByteArray]

theorem bytes_join (texts : List String) : bytes (String.join texts) = texts.flatMap bytes := by
  induction texts with
  | nil => rfl
  | cons text rest ih => rw [String.join_cons, bytes_append, ih, List.flatMap_cons]

theorem encoded_bytes (s : String) : Encoded (bytes s) := ⟨s.toList, (bytes_eq_flatMap s).symm⟩

theorem encoded_nil : Encoded [] := ⟨[], rfl⟩

/-! ## Single characters -/

theorem isContinuation_low_bits (b : UInt8) : isContinuation (b &&& 0x3f ||| 0x80) = true := by
  have h : ∀ n < 256, isContinuation (UInt8.ofNat n &&& 0x3f ||| 0x80) = true := by decide +kernel
  simpa using h b.toNat b.toNat_lt

theorem lead_of_two (b : UInt8) : 0xc0 ≤ (b &&& 0x1f ||| 0xc0) := by
  have h : ∀ n < 256, 0xc0 ≤ (UInt8.ofNat n &&& 0x1f ||| 0xc0) := by decide +kernel
  simpa using h b.toNat b.toNat_lt

theorem lead_of_three (b : UInt8) : 0xc0 ≤ (b &&& 0x0f ||| 0xe0) := by
  have h : ∀ n < 256, 0xc0 ≤ (UInt8.ofNat n &&& 0x0f ||| 0xe0) := by decide +kernel
  simpa using h b.toNat b.toNat_lt

theorem lead_of_four (b : UInt8) : 0xc0 ≤ (b &&& 0x07 ||| 0xf0) := by
  have h : ∀ n < 256, 0xc0 ≤ (UInt8.ofNat n &&& 0x07 ||| 0xf0) := by decide +kernel
  simpa using h b.toNat b.toNat_lt

theorem utf8EncodeChar_shape (c : Char) : ∃ b rest, String.utf8EncodeChar c = b :: rest ∧
    (b < 0x80 ∧ rest = [] ∨ 0xc0 ≤ b ∧ ∀ x ∈ rest, isContinuation x = true) := by
  have hsize := c.utf8Size_le_four
  have hpos := c.utf8Size_pos
  obtain h | h | h | h : c.utf8Size = 1 ∨ c.utf8Size = 2 ∨ c.utf8Size = 3 ∨ c.utf8Size = 4 := by
    omega
  · refine ⟨_, _, String.utf8EncodeChar_eq_singleton h, Or.inl ⟨?_, rfl⟩⟩
    have hle := Char.utf8Size_eq_one_iff.1 h
    rw [UInt32.le_iff_toNat_le] at hle
    rw [UInt8.lt_iff_toNat_lt, UInt32.toNat_toUInt8]
    simp only [UInt32.reduceToNat, UInt8.reduceToNat] at *
    omega
  · refine ⟨_, _, String.utf8EncodeChar_eq_cons_cons h, Or.inr ⟨lead_of_two _, ?_⟩⟩
    simp [isContinuation_low_bits]
  · refine ⟨_, _, String.utf8EncodeChar_eq_cons_cons_cons h, Or.inr ⟨lead_of_three _, ?_⟩⟩
    simp [isContinuation_low_bits]
  · refine ⟨_, _, String.utf8EncodeChar_eq_cons_cons_cons_cons h, Or.inr ⟨lead_of_four _, ?_⟩⟩
    simp [isContinuation_low_bits]

/-! ## Cuts -/

theorem Encoded.of_cons {b : UInt8} {rest : List UInt8} (h : Encoded (b :: rest))
    (hb : b < 0x80) : Encoded rest := by
  obtain ⟨cs, hcs⟩ := h
  cases cs with
  | nil => simp at hcs
  | cons c cs =>
      obtain ⟨x, more, hshape, hx⟩ := utf8EncodeChar_shape c
      rw [List.flatMap_cons, hshape, List.cons_append] at hcs
      obtain ⟨rfl, hrest⟩ := List.cons.inj hcs
      rcases hx with ⟨-, rfl⟩ | ⟨hlead, -⟩
      · exact ⟨cs, hrest⟩
      · exact absurd (UInt8.lt_of_lt_of_le hb (by decide)) (UInt8.not_lt.2 hlead)

/-- A byte that continues no character starts one. -/
theorem Encoded.drop {l : List UInt8} {n : Nat} (h : Encoded l)
    (hn : ∀ b, l[n]? = some b → isContinuation b = false) : Encoded (l.drop n) := by
  obtain ⟨cs, rfl⟩ := h
  induction cs generalizing n with
  | nil => simp [encoded_nil]
  | cons c cs ih =>
      obtain ⟨x, more, hshape, hx⟩ := utf8EncodeChar_shape c
      cases n with
      | zero => exact ⟨c :: cs, rfl⟩
      | succ m =>
          rw [List.flatMap_cons, hshape, List.cons_append] at hn ⊢
          rw [List.drop_succ_cons]
          rw [List.getElem?_cons_succ] at hn
          by_cases hm : m < more.length
          · -- The cut would fall on a byte that continues the first character.
            rcases hx with ⟨-, rfl⟩ | ⟨-, hmore⟩
            · simp at hm
            · have hcontinues := hmore more[m] (List.getElem_mem hm)
              rw [hn more[m] (by rw [List.getElem?_append_left hm, List.getElem?_eq_getElem hm])]
                at hcontinues
              simp at hcontinues
          · rw [List.drop_append, List.drop_eq_nil_of_le (by omega), List.nil_append]
            apply ih
            intro b hb
            apply hn
            rw [List.getElem?_append_right (by omega)]
            exact hb

theorem isContinuation_of_ascii {b : UInt8} (h : b < 0x80) : isContinuation b = false := by
  simp only [isContinuation, Bool.and_eq_false_iff, decide_eq_false_iff_not, UInt8.not_le]
  exact Or.inl h

theorem Encoded.drop_ascii {l : List UInt8} {n : Nat} {b : UInt8} (h : Encoded l)
    (hn : l[n]? = some b) (hb : b < 0x80) : Encoded (l.drop n) ∧ Encoded (l.drop (n + 1)) := by
  have hdrop : Encoded (l.drop n) := by
    apply h.drop
    intro x hx
    obtain rfl : x = b := Option.some.inj (hx.symm.trans hn)
    exact isContinuation_of_ascii hb
  refine ⟨hdrop, ?_⟩
  obtain ⟨hlt, rfl⟩ := List.getElem?_eq_some_iff.1 hn
  rw [List.drop_eq_getElem_cons hlt] at hdrop
  exact hdrop.of_cons hb

theorem test_of_getElem?_spanLength {test : UInt8 → Bool} {l : List UInt8} {b : UInt8}
    (h : l[spanLength test l]? = some b) : test b = false := by
  induction l with
  | nil => simp at h
  | cons x rest ih =>
      by_cases hx : test x = true
      · simp only [spanLength, List.takeWhile_cons_of_pos hx, List.length_cons,
          List.getElem?_cons_succ] at h
        exact ih h
      · simp only [spanLength, List.takeWhile_cons_of_neg hx, List.length_nil,
          List.getElem?_cons_zero] at h
        obtain rfl := Option.some.inj h
        simpa using hx

theorem Encoded.drop_span {test : UInt8 → Bool} {l : List UInt8} (h : Encoded l)
    (htest : ∀ b, test b = false → isContinuation b = false) :
    Encoded (l.drop (spanLength test l)) := by
  apply h.drop
  intro b hb
  exact htest b (test_of_getElem?_spanLength hb)

theorem Encoded.drop_span_ascii {test : UInt8 → Bool} {l : List UInt8} (h : Encoded l)
    (htest : ∀ b, test b = true → b < 0x80) : Encoded (l.drop (spanLength test l)) := by
  induction l with
  | nil => simpa using h
  | cons x rest ih =>
      by_cases hx : test x = true
      · rw [spanLength, List.takeWhile_cons_of_pos hx]
        exact ih (h.of_cons (htest x hx))
      · rw [spanLength, List.takeWhile_cons_of_neg hx]
        exact h

theorem Encoded.drop_charWidth {l : List UInt8} (h : Encoded l) :
    Encoded (l.drop (charWidth l)) := by
  cases l with
  | nil => simpa using h
  | cons x rest =>
      apply h.drop
      intro b hb
      rw [charWidth, Nat.add_comm, List.getElem?_cons_succ] at hb
      exact test_of_getElem?_spanLength hb

/-! ## Boundaries -/

theorem toList_extract (s : String) (offset : Nat) :
    (s.toByteArray.extract offset s.utf8ByteSize).data.toList = (bytes s).drop offset := by
  rw [ByteArray.data_extract, Array.toList_extract, List.extract_eq_take_drop]
  apply List.take_of_length_le
  simp [← String.size_toByteArray]

/-- A text can be cut exactly where what is left encodes characters. -/
theorem isBoundary_iff_encoded {s : String} {offset : Nat} :
    isBoundary s offset = true ↔ offset ≤ s.utf8ByteSize ∧ Encoded ((bytes s).drop offset) := by
  rw [isBoundary_iff, String.Pos.Raw.isValid_iff_isValidUTF8_extract_utf8ByteSize]
  apply and_congr
  · rw [String.Pos.Raw.le_iff, String.byteIdx_rawEndPos]
  · rw [← toList_extract]
    constructor
    · rintro ⟨cs, hcs⟩
      refine ⟨cs, ?_⟩
      rw [hcs, List.utf8Encode, List.data_toByteArray]
    · rintro ⟨cs, hcs⟩
      refine ⟨cs, ?_⟩
      apply ByteArray.ext
      apply Array.toList_inj.1
      rw [← hcs, List.utf8Encode, List.data_toByteArray]

theorem isBoundary_zero (s : String) : isBoundary s 0 = true :=
  isBoundary_iff_encoded.2 ⟨Nat.zero_le _, encoded_bytes s⟩

theorem isBoundary_size (s : String) : isBoundary s s.utf8ByteSize = true := by
  have hnil : (bytes s).drop s.utf8ByteSize = [] := List.drop_length
  exact isBoundary_iff_encoded.2 ⟨Nat.le_refl _, hnil ▸ encoded_nil⟩

/-! ## Parts -/

theorem utf8ByteSize_of_slice? {s t : String} {start stop : Nat}
    (h : slice? s start stop = some t) : t.utf8ByteSize = stop - start := by
  obtain ⟨-, hstop, -⟩ := slice?_isSome_iff.1 (Option.isSome_of_eq_some h)
  have hsize := le_size_of_isBoundary hstop
  rw [← length_bytes, bytes_of_slice? h, List.length_take, List.length_drop, length_bytes]
  omega

theorem slice?_infix {s t u : String} {start stop first last : Nat}
    (ht : slice? s start stop = some t) (hu : slice? s first last = some u)
    (hfirst : first ≤ start) (hlast : stop ≤ last) :
    ∃ front back, u = front ++ t ++ back := by
  obtain ⟨hstart, hstop, hle⟩ := slice?_isSome_iff.1 (Option.isSome_of_eq_some ht)
  obtain ⟨hfront, hback, -⟩ := slice?_isSome_iff.1 (Option.isSome_of_eq_some hu)
  obtain ⟨front, hfront⟩ := Option.isSome_iff_exists.1
    (slice?_isSome_iff.2 ⟨hfront, hstart, hfirst⟩)
  obtain ⟨back, hback⟩ := Option.isSome_iff_exists.1 (slice?_isSome_iff.2 ⟨hstop, hback, hlast⟩)
  have hwhole : last - first = (start - first) + ((stop - start) + (last - stop)) := by omega
  refine ⟨front, back, bytes_injective ?_⟩
  rw [bytes_append, bytes_append, bytes_of_slice? hfront, bytes_of_slice? ht, bytes_of_slice? hback,
    bytes_of_slice? hu, hwhole, List.take_add, List.take_add, List.drop_drop, List.drop_drop,
    Nat.add_sub_cancel' hfirst, Nat.add_sub_cancel' hle, List.append_assoc]

theorem Encoded.append {x y : List UInt8} (hx : Encoded x) (hy : Encoded y) : Encoded (x ++ y) := by
  obtain ⟨cs, rfl⟩ := hx
  obtain ⟨ds, rfl⟩ := hy
  exact ⟨cs ++ ds, List.flatMap_append⟩

theorem Encoded.exists_string {l : List UInt8} (h : Encoded l) : ∃ s, bytes s = l := by
  obtain ⟨cs, rfl⟩ := h
  exact ⟨String.ofList cs, by rw [bytes_eq_flatMap, String.toList_ofList]⟩

/-- What stands before a cut encodes characters too. -/
theorem Encoded.of_append {x y : List UInt8} (h : Encoded (x ++ y)) (hy : Encoded y) :
    Encoded x := by
  obtain ⟨s, hs⟩ := h.exists_string
  have hle : x.length ≤ s.utf8ByteSize := by
    rw [← length_bytes, hs, List.length_append]
    exact Nat.le_add_right _ _
  have hstop : isBoundary s x.length = true := by
    refine isBoundary_iff_encoded.2 ⟨hle, ?_⟩
    rw [hs, List.drop_left]
    exact hy
  obtain ⟨t, ht⟩ := Option.isSome_iff_exists.1
    (slice?_isSome_iff.2 ⟨isBoundary_zero s, hstop, Nat.zero_le _⟩)
  have hbytes := bytes_of_slice? ht
  rw [hs, List.drop_zero, Nat.sub_zero, List.take_left] at hbytes
  rw [← hbytes]
  exact encoded_bytes t

theorem decode_utf8EncodeChar_append (c : Char) (rest : List UInt8) :
    (String.utf8EncodeChar c ++ rest).toByteArray.utf8DecodeChar? 0 = some c := by
  rw [List.toByteArray_append]
  exact ByteArray.utf8DecodeChar?_utf8EncodeChar_append

theorem Encoded.of_char_append {c : Char} {rest : List UInt8}
    (h : Encoded (String.utf8EncodeChar c ++ rest)) : Encoded rest := by
  obtain ⟨cs, hcs⟩ := h
  have hfront := decode_utf8EncodeChar_append c rest
  cases cs with
  | nil =>
      have hlength := congrArg List.length hcs
      have hpos := c.utf8Size_pos
      simp only [List.flatMap_nil, List.length_nil, List.length_append,
        String.length_utf8EncodeChar] at hlength
      omega
  | cons d ds =>
      rw [List.flatMap_cons] at hcs
      rw [← hcs, decode_utf8EncodeChar_append] at hfront
      obtain rfl := Option.some.inj hfront
      exact ⟨ds, List.append_cancel_left hcs⟩

theorem Encoded.of_append_right {x y : List UInt8} (hx : Encoded x) (h : Encoded (x ++ y)) :
    Encoded y := by
  obtain ⟨cs, rfl⟩ := hx
  induction cs with
  | nil => exact h
  | cons c cs ih =>
      rw [List.flatMap_cons, List.append_assoc] at h
      exact ih h.of_char_append

theorem exists_append_of_prefix {s t : String} (h : bytes s <+: bytes t) : ∃ r, t = s ++ r := by
  obtain ⟨rest, hrest⟩ := h
  have hencoded : Encoded (bytes s ++ rest) := hrest ▸ encoded_bytes t
  obtain ⟨r, rfl⟩ := (Encoded.of_append_right (encoded_bytes s) hencoded).exists_string
  exact ⟨r, bytes_injective (by rw [bytes_append, hrest])⟩

theorem head?_of_starts {s : String} {c : Char} (h : String.utf8EncodeChar c <+: bytes s) :
    s.toList.head? = some c := by
  obtain ⟨rest, hrest⟩ := h
  have hfront := decode_utf8EncodeChar_append c rest
  rw [bytes_eq_flatMap] at hrest
  cases hchars : s.toList with
  | nil =>
      have hlength := congrArg List.length hrest
      have hpos := c.utf8Size_pos
      rw [hchars, List.length_append, String.length_utf8EncodeChar, List.flatMap_nil,
        List.length_nil] at hlength
      omega
  | cons d ds =>
      rw [hrest, hchars, List.flatMap_cons, decode_utf8EncodeChar_append] at hfront
      exact hfront

theorem getLast?_of_ends {s : String} {c : Char}
    (h : String.utf8EncodeChar c <:+ bytes s) : s.toList.getLast? = some c := by
  obtain ⟨front, hfront⟩ := h
  have hencoded : Encoded (front ++ String.utf8EncodeChar c) := hfront ▸ encoded_bytes s
  obtain ⟨cs, rfl⟩ := hencoded.of_append ⟨[c], List.append_nil _⟩
  have hs : s = String.ofList (cs ++ [c]) := by
    apply bytes_injective
    rw [← hfront, bytes_eq_flatMap, String.toList_ofList, List.flatMap_append,
      List.flatMap_singleton]
  rw [hs, String.toList_ofList, List.getLast?_concat]

/-! ## Bytes of single characters -/

theorem utf8EncodeChar_injective {c d : Char}
    (h : String.utf8EncodeChar c = String.utf8EncodeChar d) : c = d := by
  have hc := decode_utf8EncodeChar_append c []
  rw [h, decode_utf8EncodeChar_append] at hc
  exact (Option.some.inj hc).symm

theorem utf8EncodeChar_ascii {c : Char} (h : c.val ≤ 127) :
    String.utf8EncodeChar c = [c.val.toUInt8] ∧ c.val.toUInt8.toNat = c.val.toNat := by
  refine ⟨String.utf8EncodeChar_eq_singleton (Char.utf8Size_eq_one_iff.2 h), ?_⟩
  have hle : c.val.toNat ≤ 127 := UInt32.le_iff_toNat_le.1 h
  rw [UInt32.toNat_toUInt8]
  omega

theorem mem_toList_of_mem_bytes {s : String} {c : Char} (hc : c.val ≤ 127)
    (h : c.val.toUInt8 ∈ bytes s) : c ∈ s.toList := by
  obtain ⟨hencode, hnat⟩ := utf8EncodeChar_ascii hc
  have hascii : c.val.toUInt8 < 0x80 := by
    rw [UInt32.le_iff_toNat_le] at hc
    rw [UInt8.lt_iff_toNat_lt, hnat]
    exact Nat.lt_succ_of_le hc
  rw [bytes_eq_flatMap] at h
  obtain ⟨d, hd, hmem⟩ := List.mem_flatMap.1 h
  obtain ⟨b, rest, hshape, hb⟩ := utf8EncodeChar_shape d
  rw [hshape, List.mem_cons] at hmem
  rcases hb with ⟨-, rfl⟩ | ⟨hlead, hrest⟩
  · rcases hmem with heq | hmem
    · rw [← heq, ← hencode] at hshape
      exact utf8EncodeChar_injective hshape ▸ hd
    · cases hmem
  · -- Characters beyond ASCII hold no ASCII byte.
    rcases hmem with heq | hmem
    · rw [← heq] at hlead
      exact absurd (UInt8.lt_of_lt_of_le hascii (by decide)) (UInt8.not_lt.2 hlead)
    · have hcontinues := hrest _ hmem
      rw [isContinuation_of_ascii hascii] at hcontinues
      cases hcontinues

/-! ## Bytes that continue a character -/

/-- The byte at an offset continues a character that starts before it. -/
def Continues (l : List UInt8) (n : Nat) : Prop :=
  ∃ b, l[n]? = some b ∧ isContinuation b = true

theorem Continues.lt_length {l : List UInt8} {n : Nat} (h : Continues l n) : n < l.length := by
  obtain ⟨b, hb, -⟩ := h
  exact (List.getElem?_eq_some_iff.1 hb).1

theorem continues_congr {l r : List UInt8} {n m : Nat} (h : l[n]? = r[m]?) :
    Continues l n ↔ Continues r m := by
  rw [Continues, Continues, h]

theorem Encoded.not_isContinuation {b : UInt8} {rest : List UInt8} (h : Encoded (b :: rest)) :
    isContinuation b = false := by
  obtain ⟨cs, hcs⟩ := h
  cases cs with
  | nil => simp at hcs
  | cons c cs =>
      obtain ⟨x, more, hshape, hx⟩ := utf8EncodeChar_shape c
      rw [List.flatMap_cons, hshape, List.cons_append] at hcs
      obtain ⟨rfl, -⟩ := List.cons.inj hcs
      rcases hx with ⟨hascii, -⟩ | ⟨hlead, -⟩
      · exact isContinuation_of_ascii hascii
      · simp only [isContinuation, Bool.and_eq_false_iff, decide_eq_false_iff_not, UInt8.not_lt]
        exact Or.inr hlead

theorem Encoded.drop_iff {l : List UInt8} {n : Nat} (h : Encoded l) :
    Encoded (l.drop n) ↔ ¬ Continues l n := by
  constructor
  · rintro hdrop ⟨b, hb, hcontinues⟩
    obtain ⟨hlt, rfl⟩ := List.getElem?_eq_some_iff.1 hb
    rw [List.drop_eq_getElem_cons hlt] at hdrop
    rw [hdrop.not_isContinuation] at hcontinues
    exact absurd hcontinues Bool.false_ne_true
  · intro hnot
    apply h.drop
    intro b hb
    rw [← Bool.not_eq_true]
    exact fun hcontinues => hnot ⟨b, hb, hcontinues⟩

theorem isBoundary_iff_not_continues {s : String} {n : Nat} :
    isBoundary s n = true ↔ n ≤ s.utf8ByteSize ∧ ¬ Continues (bytes s) n := by
  rw [isBoundary_iff_encoded, (encoded_bytes s).drop_iff]

theorem not_continues_of_isBoundary {s : String} {n : Nat} (h : isBoundary s n = true) :
    ¬ Continues (bytes s) n :=
  (isBoundary_iff_not_continues.1 h).2

theorem Continues.ne_lineBreak {s : String} {n : Nat} (h : Continues (bytes s) (n + 1)) :
    (bytes s)[n]? ≠ some lineBreak := by
  intro hbreak
  have hdrop := ((encoded_bytes s).drop_ascii hbreak (by decide)).2
  exact (encoded_bytes s).drop_iff.1 hdrop h

end LatexOrigins.Text
