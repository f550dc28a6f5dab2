import LatexOrigins.Fault
import LatexOrigins.Proofs.Flat.Lines
import LatexOrigins.Proofs.Markup.Balanced
import LatexOrigins.Proofs.Markup.Cut
import LatexOrigins.Proofs.Markup.Insertion
import LatexOrigins.Proofs.Results

/-!
# Groups are recognised exactly

A group in braces is found where one stands: behind blanks, between a brace that opens and
the brace that belongs to it, with balanced bytes as its content. There is no second way to
read these bytes as a group. The search that goes through the bytes offset by offset never
closes a group where none is open and never reads behind the last byte. A group that starts
inside the content of another ends inside it, because what stands behind an opening brace of
balanced bytes is balanced up to the brace that closes it.
-/

namespace LatexOrigins.Markup

open Flat (backslashesBefore)

/-! ## What stands in front of the brace that closes -/

/-- If a search finds a brace that closes, the bytes are balanced up to some closing brace. -/
theorem exists_balanced_of_closing {l : List UInt8} {depth braces n : Nat} (hdepth : 0 < depth)
    (h : closing leftBrace rightBrace depth braces l = some n) :
    ∃ u rest, Balanced u ∧ l = u ++ rightBrace :: rest := by
  induction hlength : l.length using Nat.strongRecOn generalizing l depth n with
  | ind length ih =>
      cases l with
      | nil => cases h
      | cons b l =>
          rw [List.length_cons] at hlength
          by_cases hback : b = backslash
          · subst hback
            cases l with
            | nil => simp [closing] at h
            | cons c l =>
                rw [closing_escape] at h
                obtain ⟨m, hm, -⟩ := Option.map_eq_some_iff.1 h
                rw [List.length_cons] at hlength
                obtain ⟨u, rest, hu, rfl⟩ := ih l.length (by omega) hdepth hm rfl
                exact ⟨backslash :: c :: u, rest, .escape c hu, rfl⟩
          · by_cases hleft : b = leftBrace
            · -- The group that opens here ends at a first brace, and the bytes go on behind it.
              subst hleft
              rw [closing_leftBrace] at h
              obtain ⟨m, hm, -⟩ := Option.map_eq_some_iff.1 h
              obtain ⟨inner, others, hinner, rfl⟩ :=
                ih l.length (by omega) (Nat.succ_pos depth) hm rfl
              rw [hinner.closing_append (Nat.succ_pos depth), closing_rightBrace, if_neg (by omega),
                Nat.succ_sub_one, Option.map_map] at hm
              obtain ⟨m', hm', -⟩ := Option.map_eq_some_iff.1 hm
              rw [List.length_append, List.length_cons] at hlength
              obtain ⟨u, rest, hu, rfl⟩ := ih others.length (by omega) hdepth hm' rfl
              refine ⟨leftBrace :: (inner ++ rightBrace :: u), rest, .group hinner hu, ?_⟩
              rw [List.cons_append, List.append_assoc, List.cons_append]
            · by_cases hright : b = rightBrace
              · exact ⟨[], l, .nil, by rw [hright, List.nil_append]⟩
              · rw [closing_byte hback hleft hright hleft hright] at h
                obtain ⟨m, hm, -⟩ := Option.map_eq_some_iff.1 h
                obtain ⟨u, rest, hu, rfl⟩ := ih l.length (by omega) hdepth hm rfl
                exact ⟨b :: u, rest, .byte hback hleft hright hu, rfl⟩

theorem closing_eq_some_iff {l : List UInt8} {braces n : Nat} :
    closing leftBrace rightBrace 1 braces l = some n ↔
      ∃ u rest, Balanced u ∧ l = u ++ rightBrace :: rest ∧ n = u.length := by
  constructor
  · intro h
    obtain ⟨u, rest, hu, rfl⟩ := exists_balanced_of_closing Nat.zero_lt_one h
    rw [hu.closing_append Nat.zero_lt_one, closing_rightBrace, if_pos (Nat.le_refl 1),
      Option.map_some, Nat.zero_add] at h
    exact ⟨u, rest, hu, rfl, (Option.some.inj h).symm⟩
  · rintro ⟨u, rest, hu, rfl, rfl⟩
    rw [hu.closing_append Nat.zero_lt_one, closing_rightBrace, if_pos (Nat.le_refl 1),
      Option.map_some, Nat.zero_add]

/-! ## Groups as they are written -/

/-- A group in braces stands at the front of some bytes: blanks, a brace that opens, the
balanced content, and a brace that closes. -/
structure Spells (l content : List UInt8) (g : Group) : Prop where
  balanced : Balanced content
  bytes : ∃ blanks rest, l = blanks ++ leftBrace :: (content ++ rightBrace :: rest) ∧
    (∀ b ∈ blanks, isInlineBlank b = true) ∧ g.start = blanks.length + 1
  stop : g.stop = g.start + content.length

variable {left right : UInt8} {bytes l u v : List UInt8} {pos : Nat} {g h : Group}

theorem Group.eq_of_bounds (hstart : g.start = h.start) (hstop : g.stop = h.stop) : g = h := by
  cases g
  cases h
  obtain rfl := hstart
  obtain rfl := hstop
  rfl

theorem delimited_behind {blanks : List UInt8} (hblanks : ∀ b ∈ blanks, isInlineBlank b = true)
    (hleft : isInlineBlank left = false) (rest : List UInt8) :
    delimited left right (blanks ++ left :: rest) =
      (closing left right 1 0 rest).map fun n =>
        ⟨blanks.length + 1, blanks.length + 1 + n, Nat.succ_pos _, Nat.le_add_right _ _⟩ := by
  have hspan : spanLength isInlineBlank (blanks ++ left :: rest) = blanks.length := by
    apply spanLength_append_of_stop hblanks
    intro c hc
    obtain rfl := Option.some.inj hc
    simp [hleft]
  unfold delimited
  simp only [hspan, List.drop_left, if_true]

theorem Spells.braced_eq (hu : Spells l u g) : braced l = some g := by
  obtain ⟨blanks, rest, rfl, hblanks, hstart⟩ := hu.bytes
  have hclosing : closing leftBrace rightBrace 1 0 (u ++ rightBrace :: rest) = some u.length :=
    closing_eq_some_iff.2 ⟨u, rest, hu.balanced, rfl, rfl⟩
  rw [braced, delimited_behind hblanks (by decide), hclosing, Option.map_some]
  apply congrArg some
  apply Group.eq_of_bounds
  · exact hstart.symm
  · rw [hu.stop, hstart]

theorem exists_spells (hg : braced l = some g) : ∃ u, Spells l u g := by
  have hblanks : ∀ b ∈ l.takeWhile isInlineBlank, isInlineBlank b = true :=
    fun b hb => List.all_eq_true.1 List.all_takeWhile b hb
  have hfront : l.takeWhile isInlineBlank ++ l.drop (spanLength isInlineBlank l) = l :=
    List.prefix_iff_eq_append.1 (List.takeWhile_prefix _)
  unfold braced delimited at hg
  simp only at hg
  split at hg
  · cases hg
  · next b rest hdrop =>
    split at hg
    · next hb =>
      obtain ⟨n, hn, rfl⟩ := Option.map_eq_some_iff.1 hg
      obtain ⟨u, others, hu, rfl, rfl⟩ := closing_eq_some_iff.1 hn
      rw [hdrop, hb] at hfront
      exact ⟨u, hu, ⟨_, others, hfront.symm, hblanks, rfl⟩, rfl⟩
    · cases hg

theorem Spells.content_eq (hu : Spells l u g) : g.content l = u := by
  obtain ⟨blanks, rest, rfl, -, hstart⟩ := hu.bytes
  have hlength : g.stop - g.start = u.length := by
    rw [hu.stop]
    omega
  have hsplit : blanks ++ leftBrace :: (u ++ rightBrace :: rest) =
      (blanks ++ [leftBrace]) ++ (u ++ rightBrace :: rest) := by
    rw [List.append_assoc, List.singleton_append]
  rw [Group.content, hlength, hstart, hsplit, List.drop_left' (by simp), List.take_left]

theorem Spells.unique (hu : Spells l u g) (hv : Spells l v h) : u = v ∧ g = h := by
  have hsame : g = h := Option.some.inj (hu.braced_eq.symm.trans hv.braced_eq)
  subst hsame
  exact ⟨hu.content_eq.symm.trans hv.content_eq, rfl⟩

/-! ## The search offset by offset -/

/-- Read the byte at an offset. There has to be one. -/
def byteAt (bytes : List UInt8) (offset : Nat) : Except Fault UInt8 :=
  match bytes[offset]? with
  | some b => .ok b
  | none => .error (.offsetPastEnd offset bytes.length)

/-- Close one of the groups that are open. There has to be one. -/
def closeOne : Nat → Except Fault Nat
  | 0 => .error .underflow
  | depth + 1 => .ok depth

def skipBlanks (bytes : List UInt8) (offset : Nat) : Except Fault Nat :=
  if _inside : offset < bytes.length then do
    if isInlineBlank (← byteAt bytes offset) then skipBlanks bytes (offset + 1)
    else pure offset
  else pure offset
termination_by bytes.length - offset

/-- Go on at an offset to where the last of the groups is closed that are open there. The
delimiter that opens the first of them is read like every other byte, so at the start none
is open. -/
def seekEnd (left right : UInt8) (bytes : List UInt8) (offset depth braces : Nat) :
    Except Fault (Option Nat) :=
  if _inside : offset < bytes.length then do
    let b ← byteAt bytes offset
    if b = backslash then seekEnd left right bytes (offset + 2) depth braces
    else if b = left && (left = leftBrace || braces = 0) then
      seekEnd left right bytes (offset + 1) (depth + 1) braces
    else if b = right && (right = rightBrace || braces = 0) then
      let depth ← closeOne depth
      if depth = 0 then pure (some offset)
      else seekEnd left right bytes (offset + 1) depth braces
    else if b = leftBrace then seekEnd left right bytes (offset + 1) depth (braces + 1)
    else if b = rightBrace then seekEnd left right bytes (offset + 1) depth (braces - 1)
    else seekEnd left right bytes (offset + 1) depth braces
  else pure none
termination_by bytes.length - offset

/-- The group behind the blanks at an offset: where its content starts and ends, and where
it ends itself. -/
def groupAt (left right : UInt8) (bytes : List UInt8) (pos : Nat) :
    Except Fault (Option (Nat × Nat × Nat)) := do
  let start ← skipBlanks bytes pos
  if bytes[start]? = some left then
    let stop? ← seekEnd left right bytes start 0 0
    pure (stop?.map fun stop => (start + 1, stop, stop + 1))
  else
    pure none

/-- The ends of a group that was found behind an offset. -/
def Group.endsFrom (pos : Nat) (g : Group) : Nat × Nat × Nat :=
  (pos + g.start, pos + g.stop, pos + g.width)

theorem byteAt_eq {offset : Nat} {b : UInt8} (hb : bytes[offset]? = some b) :
    byteAt bytes offset = .ok b := by
  rw [byteAt, hb]

theorem skipBlanks_eq (bytes : List UInt8) (offset : Nat) :
    skipBlanks bytes offset = .ok (offset + spanLength isInlineBlank (bytes.drop offset)) := by
  rw [skipBlanks]
  split
  · next hlt =>
    have hb := List.getElem?_eq_getElem hlt
    rw [byteAt_eq hb, drop_eq_cons hb, Results.ok_bind]
    split
    · next hblank =>
      rw [skipBlanks_eq bytes (offset + 1), spanLength_cons_of_pos hblank]
      apply congrArg
      omega
    · next hblank => rw [spanLength_cons_of_neg hblank]; rfl
  · next hge =>
    rw [List.drop_eq_nil_of_le (Nat.not_lt.1 hge)]
    rfl
termination_by bytes.length - offset

theorem closing_backslash (left right : UInt8) (depth braces : Nat) (l : List UInt8) :
    closing left right depth braces (backslash :: l) =
      (closing left right depth braces (l.drop 1)).map (· + 2) := by
  cases l with
  | nil => simp [closing]
  | cons c l => exact closing_escape left right depth braces c l

theorem map_add_map (x : Option Nat) (offset n : Nat) :
    (x.map (· + n)).map (offset + ·) = x.map (offset + n + ·) := by
  rw [Option.map_map]
  congr 1
  funext k
  simp only [Function.comp_apply]
  omega

/-- With a group open no delimiter closes one too many, and the search finds what the one
that counts from the front does. -/
theorem seekEnd_eq {left right : UInt8} {bytes : List UInt8} {offset depth braces : Nat}
    (hdepth : 0 < depth) :
    seekEnd left right bytes offset depth braces =
      .ok ((closing left right depth braces (bytes.drop offset)).map (offset + ·)) := by
  rw [seekEnd]
  split
  · next hlt =>
    have hb := List.getElem?_eq_getElem hlt
    generalize bytes[offset] = b at hb
    rw [byteAt_eq hb, drop_eq_cons hb, Results.ok_bind]
    by_cases hback : b = backslash
    · rw [if_pos hback, hback, closing_backslash, List.drop_drop, map_add_map]
      exact seekEnd_eq hdepth
    · rw [if_neg hback, closing_cons hback]
      split
      · rw [map_add_map]
        exact seekEnd_eq (Nat.succ_pos depth)
      · split
        · -- The group that is closed is the last one, or one is open behind the delimiter too.
          obtain ⟨depth, rfl⟩ := Nat.exists_eq_succ_of_ne_zero (Nat.ne_of_gt hdepth)
          rw [closeOne, Results.ok_bind]
          by_cases hzero : depth = 0
          · rw [if_pos hzero, if_pos (by omega)]
            rfl
          · rw [if_neg hzero, if_neg (by omega), Nat.succ_sub_one, map_add_map]
            exact seekEnd_eq (Nat.pos_of_ne_zero hzero)
        · split
          · rw [map_add_map]
            exact seekEnd_eq hdepth
          · split
            · rw [map_add_map]
              exact seekEnd_eq hdepth
            · rw [map_add_map]
              exact seekEnd_eq hdepth
  · next hge =>
    rw [List.drop_eq_nil_of_le (Nat.not_lt.1 hge)]
    rfl
termination_by bytes.length - offset

theorem seekEnd_open {offset : Nat} (hkind : Delimiters left right)
    (hopen : bytes[offset]? = some left) :
    seekEnd left right bytes offset 0 0 =
      .ok ((closing left right 1 0 (bytes.drop (offset + 1))).map (offset + 1 + ·)) := by
  have hback : left ≠ backslash := by
    cases hkind
    · decide
    · decide
  rw [seekEnd, dif_pos (lt_length hopen), byteAt_eq hopen, Results.ok_bind, if_neg hback,
    if_pos (by simp)]
  exact seekEnd_eq Nat.zero_lt_one

theorem groupAt_eq (hkind : Delimiters left right) (bytes : List UInt8) (pos : Nat) :
    groupAt left right bytes pos =
      .ok ((delimited left right (bytes.drop pos)).map (Group.endsFrom pos)) := by
  rw [groupAt, skipBlanks_eq, Results.ok_bind]
  generalize hblanks : spanLength isInlineBlank (bytes.drop pos) = blanks
  unfold delimited
  simp only [hblanks, List.drop_drop]
  split
  · next hopen =>
    rw [seekEnd_open hkind hopen, drop_eq_cons hopen, Results.ok_bind]
    simp only [if_true, Option.map_map]
    apply congrArg Except.ok
    congr 1
    funext n
    simp only [Function.comp_apply, Group.endsFrom, Group.width, Prod.mk.injEq]
    omega
  · next hopen =>
    split
    · rfl
    · next b rest hdrop =>
      have hb : bytes[pos + blanks]? = some b := by
        rw [← Nat.add_zero (pos + blanks), ← List.getElem?_drop, hdrop]
        rfl
      rw [if_neg]
      · rfl
      · rintro rfl
        exact hopen hb

/-- The ends of a group in a text lie between characters, wherever the search for it
started: each of them stands beside a delimiter. -/
theorem boundary_of_delimited {text : String} (hkind : Delimiters left right)
    (hg : delimited left right ((Text.bytes text).drop pos) = some g) :
    Text.isBoundary text (pos + g.start) = true ∧ Text.isBoundary text (pos + g.stop) = true ∧
      Text.isBoundary text (pos + g.width) = true := by
  have hencoded := Text.encoded_bytes text
  obtain ⟨hopen, hclose⟩ := delimited_ends hg
  rw [List.getElem?_drop] at hopen hclose
  have hascii : left < 0x80 ∧ right < 0x80 := by
    cases hkind
    · decide
    · decide
  have hstart := (Cut.of_ascii hencoded hopen hascii.1).2
  have hstop := Cut.of_ascii hencoded hclose hascii.2
  have hpos := g.start_pos
  rw [Nat.add_assoc, Nat.sub_add_cancel hpos] at hstart
  exact ⟨isBoundary_iff_cut.2 hstart, isBoundary_iff_cut.2 hstop.1, isBoundary_iff_cut.2 hstop.2⟩

/-! ## Groups inside groups -/

theorem backslashesBefore_left {front : List UInt8} {k : Nat} (hk : k ≤ front.length)
    (rest : List UInt8) : backslashesBefore (front ++ rest) k = backslashesBefore front k := by
  rw [backslashesBefore, List.take_append_of_le_length hk, backslashesBefore]

theorem backslashesBefore_right {b : UInt8} (hb : b ≠ backslash) (front rest : List UInt8) (k : Nat) :
    backslashesBefore (front ++ b :: rest) (front.length + (k + 1)) = backslashesBefore rest k := by
  have hstop : spanLength (· = backslash) (b :: front.reverse) = 0 :=
    spanLength_cons_of_neg (by simpa using hb) _
  rw [backslashesBefore, List.take_length_add_append, List.take_succ_cons, List.reverse_append,
    List.reverse_cons, List.append_assoc, List.singleton_append, spanLength_append, hstop]
  split
  · next hall => rw [backslashesBefore, hall, Nat.add_zero]
  · rfl

/-- What stands behind an opening brace of balanced bytes is balanced up to a brace that
closes, unless a backslash takes the opening brace along. -/
theorem Balanced.exists_inner {k : Nat} (hu : Balanced u) (hopen : u[k]? = some leftBrace)
    (heven : backslashesBefore u k % 2 = 0) :
    ∃ inner rest, Balanced inner ∧ u.drop k = leftBrace :: (inner ++ rightBrace :: rest) := by
  induction hu generalizing k with
  | nil => cases hopen
  | @byte b l hback hleft hright _ ih =>
      cases k with
      | zero =>
          rw [List.getElem?_cons_zero] at hopen
          exact absurd (Option.some.inj hopen) hleft
      | succ k =>
          rw [List.getElem?_cons_succ] at hopen
          rw [Flat.backslashesBefore_cons hback] at heven
          exact ih hopen heven
  | @escape b l _ ih =>
      match k with
      | 0 => exact absurd (Option.some.inj hopen) (by decide)
      | 1 =>
          have hone : backslashesBefore (backslash :: b :: l) 1 = 1 := rfl
          rw [hone] at heven
          cases heven
      | k + 2 =>
          rw [Flat.backslashesBefore_pair] at heven
          exact ih hopen heven
  | @group inner l hinner _ ihinner ih =>
      cases k with
      | zero => exact ⟨inner, l, hinner, rfl⟩
      | succ k =>
          rw [List.getElem?_cons_succ] at hopen
          rw [Flat.backslashesBefore_cons (by decide)] at heven
          rw [List.drop_succ_cons]
          by_cases hk : k < inner.length
          · rw [List.getElem?_append_left hk] at hopen
            rw [backslashesBefore_left (Nat.le_of_lt hk)] at heven
            obtain ⟨v, w, hv, hdrop⟩ := ihinner hopen heven
            refine ⟨v, w ++ rightBrace :: l, hv, ?_⟩
            rw [List.drop_append_of_le_length (Nat.le_of_lt hk), hdrop]
            simp
          · obtain ⟨j, rfl⟩ := Nat.exists_eq_add_of_le (Nat.not_lt.1 hk)
            rw [List.getElem?_append_right (Nat.le_add_right _ _), Nat.add_sub_cancel_left] at hopen
            rw [List.drop_length_add_append]
            cases j with
            | zero => exact absurd (Option.some.inj hopen) (by decide)
            | succ j =>
                rw [backslashesBefore_right (by decide)] at heven
                rw [List.drop_succ_cons]
                exact ih hopen heven

/-- A group that starts inside the content of another ends inside it. -/
theorem Spells.exists_inner {k : Nat} (hu : Spells l u g) (hopen : u[k]? = some leftBrace)
    (heven : backslashesBefore u k % 2 = 0) :
    ∃ inner, braced (l.drop (g.start + k)) = some inner ∧ k + inner.width ≤ u.length := by
  obtain ⟨v, w, hv, hdrop⟩ := hu.balanced.exists_inner hopen heven
  obtain ⟨blanks, rest, rfl, -, hstart⟩ := hu.bytes
  have hk : k ≤ u.length := Nat.le_of_lt (lt_length hopen)
  have hbehind : (blanks ++ leftBrace :: (u ++ rightBrace :: rest)).drop (g.start + k) =
      leftBrace :: (v ++ rightBrace :: (w ++ rightBrace :: rest)) := by
    rw [hstart, Nat.add_assoc, List.drop_length_add_append, Nat.add_comm 1 k, List.drop_succ_cons,
      List.drop_append_of_le_length hk, hdrop]
    simp
  refine ⟨_, hbehind ▸ braced_balanced hv _, ?_⟩
  have hlength := congrArg List.length hdrop
  rw [List.length_drop, List.length_cons, List.length_append, List.length_cons] at hlength
  simp only [Group.width]
  omega

/-! ## All together -/

/-- What the two searches for a group make of the bytes behind an offset. A group in braces
is found exactly where one is written, and it can be read in one way only. Going through the
bytes offset by offset finds the same without a fault, and what is found ends with the bytes
at the latest; in a text it ends between characters. A group inside the content of another,
at a brace with an even number of backslashes before it, ends inside that content. -/
structure Recognised (bytes : List UInt8) (pos : Nat) : Prop where
  found : ∀ g, braced (bytes.drop pos) = some g ↔ ∃ u, Spells (bytes.drop pos) u g
  unique : ∀ u v g h, Spells (bytes.drop pos) u g → Spells (bytes.drop pos) v h → u = v ∧ g = h
  braces : groupAt leftBrace rightBrace bytes pos =
    .ok ((braced (bytes.drop pos)).map (Group.endsFrom pos))
  brackets : groupAt leftBracket rightBracket bytes pos =
    .ok ((bracketed (bytes.drop pos)).map (Group.endsFrom pos))
  inside : ∀ g, braced (bytes.drop pos) = some g ∨ bracketed (bytes.drop pos) = some g →
    pos + g.width ≤ bytes.length
  boundaries : ∀ text g, bytes = Text.bytes text →
    braced (bytes.drop pos) = some g ∨ bracketed (bytes.drop pos) = some g →
    Text.isBoundary text (pos + g.start) = true ∧ Text.isBoundary text (pos + g.stop) = true ∧
      Text.isBoundary text (pos + g.width) = true
  nested : ∀ u g k, Spells (bytes.drop pos) u g → u[k]? = some leftBrace →
    backslashesBefore u k % 2 = 0 →
    ∃ inner, braced (bytes.drop (pos + g.start + k)) = some inner ∧ k + inner.width ≤ u.length

theorem groups_recognised (bytes : List UInt8) (pos : Nat) : Recognised bytes pos where
  found _ := ⟨exists_spells, fun ⟨_, hu⟩ => hu.braced_eq⟩
  unique _ _ _ _ hu hv := hu.unique hv
  braces := groupAt_eq .braces bytes pos
  brackets := groupAt_eq .brackets bytes pos
  inside g hg := by
    have hle : g.width ≤ (bytes.drop pos).length := by
      rcases hg with hg | hg
      · exact delimited_width_le hg
      · exact delimited_width_le hg
    have hpos := g.width_pos
    rw [List.length_drop] at hle
    omega
  boundaries text g htext hg := by
    subst htext
    rcases hg with hg | hg
    · exact boundary_of_delimited .braces hg
    · exact boundary_of_delimited .brackets hg
  nested u g k hu hopen heven := by
    obtain ⟨inner, hinner, hle⟩ := hu.exists_inner hopen heven
    rw [List.drop_drop, ← Nat.add_assoc] at hinner
    exact ⟨inner, hinner, hle⟩

end LatexOrigins.Markup
