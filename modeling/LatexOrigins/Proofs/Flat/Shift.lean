import LatexOrigins.Proofs.Flat.Relocation
import LatexOrigins.Proofs.Flat.Indentation

/-!
# The same bytes behind another front

What the scan makes of the rest of a content depends on what stands before it in two ways
only. The offsets of the moves count from the start of the content. And a comment on the
first line asks whether it stands alone there, and behind how much indentation. So where two
fronts end in lines that lead up to the rest alike, the moves for the rest are the same, apart
from their offsets.
-/

namespace LatexOrigins

open Markup

/-! ## Pieces -/

namespace Markup

open Text (Encoded)

theorem cut_append_left {l rest : List UInt8} {n : Nat} (hrest : Encoded rest)
    (hn : n ≤ l.length) : Cut (l ++ rest) n ↔ Cut l n := by
  have hdrop : (l ++ rest).drop n = l.drop n ++ rest := List.drop_append_of_le_length hn
  constructor
  · intro h
    have hencoded := h.encoded
    rw [hdrop] at hencoded
    exact ⟨hn, hencoded.of_append hrest⟩
  · intro h
    refine ⟨by rw [List.length_append]; omega, ?_⟩
    rw [hdrop]
    exact h.encoded.append hrest

theorem cut_append_right {front l : List UInt8} {n : Nat} :
    Cut (front ++ l) (front.length + n) ↔ Cut l n := by
  have hdrop : (front ++ l).drop (front.length + n) = l.drop n := List.drop_length_add_append _
  constructor
  · intro h
    have hle := h.le_length
    rw [List.length_append] at hle
    exact ⟨by omega, hdrop ▸ h.encoded⟩
  · intro h
    have hle := h.le_length
    exact ⟨by rw [List.length_append]; omega, hdrop ▸ h.encoded⟩

end Markup

namespace Text

variable {s t front rest : String} {start stop start' stop' : Nat}

/-- Pieces with the same bytes between the same kinds of ends are the same. -/
theorem slice?_congr (hstart : Cut (bytes t) start' ↔ Cut (bytes s) start)
    (hstop : Cut (bytes t) stop' ↔ Cut (bytes s) stop) (hle : start' ≤ stop' ↔ start ≤ stop)
    (hbytes : ((bytes t).drop start').take (stop' - start') =
      ((bytes s).drop start).take (stop - start)) :
    slice? t start' stop' = slice? s start stop := by
  have hsome : (slice? t start' stop').isSome ↔ (slice? s start stop).isSome := by
    simp only [slice?_isSome_iff, isBoundary_iff_cut, hstart, hstop, hle]
  cases h : slice? s start stop with
  | none => simpa [h] using hsome
  | some piece =>
      obtain ⟨piece', h'⟩ := Option.isSome_iff_exists.1 (hsome.2 (h ▸ rfl))
      have hsame : piece' = piece := by
        apply bytes_injective
        rw [bytes_of_slice? h, bytes_of_slice? h', hbytes]
      rw [h', hsame]

theorem slice?_append_left (rest : String) (hstart : start ≤ s.utf8ByteSize)
    (hstop : stop ≤ s.utf8ByteSize) : slice? (s ++ rest) start stop = slice? s start stop := by
  have hrest := encoded_bytes rest
  rw [← length_bytes] at hstart hstop
  apply slice?_congr
  · rw [bytes_append, cut_append_left hrest hstart]
  · rw [bytes_append, cut_append_left hrest hstop]
  · exact Iff.rfl
  · rw [bytes_append, List.drop_append_of_le_length hstart, List.take_append_of_le_length]
    rw [List.length_drop]
    omega

theorem slice?_append_right (front s : String) (start stop : Nat) :
    slice? (front ++ s) (front.utf8ByteSize + start) (front.utf8ByteSize + stop) =
      slice? s start stop := by
  rw [← length_bytes]
  apply slice?_congr
  · rw [bytes_append, cut_append_right]
  · rw [bytes_append, cut_append_right]
  · omega
  · rw [bytes_append, List.drop_length_add_append, Nat.add_sub_add_left]

end Text

namespace Flat

/-! ## What stands before -/

/-- The width of the indentation that ends the bytes before a place, last first, if nothing
but that stands on its line so far. -/
def lead (before : List UInt8) : Option Nat :=
  if (restOfLine before).all isInlineBlank then some (restOfLine before).length else none

variable {options : Options} {before before' l : List UInt8} {offset room : Nat}

theorem lead_lineBreak (before : List UInt8) : lead (lineBreak :: before) = some 0 := rfl

theorem lead_cons {b : UInt8} (hb : b ≠ lineBreak) (before : List UInt8) :
    lead (b :: before) = if isInlineBlank b then (lead before).map (· + 1) else none := by
  unfold lead
  rw [restOfLine_cons hb, List.all_cons, List.length_cons]
  cases isInlineBlank b with
  | false => rfl
  | true =>
      rw [Bool.true_and, if_pos rfl]
      split <;> rfl

theorem lead_append (h : lead before = lead before') (between : List UInt8) :
    lead (between ++ before) = lead (between ++ before') := by
  induction between with
  | nil => exact h
  | cons b between ih =>
      by_cases hb : b = lineBreak
      · rw [hb, List.cons_append, List.cons_append, lead_lineBreak, lead_lineBreak]
      · rw [List.cons_append, List.cons_append, lead_cons hb, lead_cons hb, ih]

theorem commentStep_congr (h : lead before = lead before') :
    commentStep options before l = commentStep options before' l := by
  unfold lead at h
  unfold commentStep
  simp only
  split at h
  · next hblank =>
    split at h
    · next hblank' => rw [if_pos hblank, if_pos hblank', Option.some.inj h]
    · cases h
  · next hblank =>
    split at h
    · cases h
    · next hblank' => rw [if_neg hblank, if_neg hblank']

theorem step_congr (h : lead before = lead before') :
    step options before room l = step options before' room l := by
  unfold step
  rw [commentStep_congr h]

/-! ## Moves -/

/-- A move of what stands behind so many bytes. -/
def behind (n : Nat) : Move → Move
  | .keep start stop => .keep (n + start) (n + stop)
  | .comment start indentation => .comment (n + start) indentation
  | .follow start stop => .follow (n + start) (n + stop)

theorem movesAt_behind (n offset : Nat) (s : Step) :
    s.movesAt (n + offset) = (s.movesAt offset).map (behind n) := by
  cases s <;> simp [Step.movesAt, behind, Nat.add_assoc]

theorem movesFrom_of_done (h : room = 0 ∨ l = []) :
    movesFrom options offset before l room = [] := by
  rw [movesFrom]
  exact dif_pos h

theorem movesFrom_of_not_done (h : ¬ (room = 0 ∨ l = [])) :
    movesFrom options offset before l room =
      (step options before room l).movesAt offset ++
        ((step options before room l).kept.elim [] fun bounds =>
          movesFrom options (offset + bounds.1) ((l.take bounds.1).reverse ++ before)
            (l.drop bounds.1) (bounds.2 - bounds.1)) ++
        movesFrom options (offset + (step options before room l).width)
          ((l.take (step options before room l).width).reverse ++ before)
          (l.drop (step options before room l).width)
          (room - (step options before room l).width) := by
  rw [movesFrom, dif_neg h]
  simp only
  congr 2
  split
  · next hkept =>
    rw [hkept]
    rfl
  · next bounds hkept =>
    rw [hkept]
    rfl

theorem movesFrom_behind {before before' l : List UInt8} (h : lead before = lead before')
    (n offset room : Nat) : movesFrom options (n + offset) before' l room =
      (movesFrom options offset before l room).map (behind n) := by
  by_cases hdone : room = 0 ∨ l = []
  · rw [movesFrom_of_done hdone, movesFrom_of_done hdone]
    rfl
  · rw [movesFrom_of_not_done hdone, movesFrom_of_not_done hdone, ← step_congr h,
      movesAt_behind, List.map_append, List.map_append, Nat.add_assoc,
      movesFrom_behind (lead_append h _)]
    congr 2
    cases hkept : (step options before room l).kept with
    | none => rfl
    | some bounds =>
        simp only [Option.elim_some]
        rw [Nat.add_assoc, movesFrom_behind (lead_append h _)]
termination_by l.length
decreasing_by
  · have hl := List.length_pos_iff.2 (not_or.1 hdone).2
    have hwidth := step_width_pos options before (l := l) (not_or.1 hdone).1
    simp only [List.length_drop]
    omega
  · have hl := List.length_pos_iff.2 (not_or.1 hdone).2
    have hbounds := step_kept_pos hkept
    simp only [List.length_drop]
    omega

theorem movesBetween_behind {front front' : List UInt8}
    (h : lead front.reverse = lead front'.reverse) (l : List UInt8) :
    movesBetween options (front ++ l) front.length (front ++ l).length =
        (movesFrom options 0 front.reverse l l.length).map (behind front.length) ∧
      movesBetween options (front' ++ l) front'.length (front' ++ l).length =
        (movesFrom options 0 front.reverse l l.length).map (behind front'.length) := by
  have hfront (part : List UInt8) : movesBetween options (part ++ l) part.length
      (part ++ l).length = movesFrom options (part.length + 0) part.reverse l l.length := by
    rw [movesBetween, List.take_left, List.drop_left, List.length_append, Nat.add_sub_cancel_left,
      Nat.add_zero]
  rw [hfront, hfront, movesFrom_behind rfl, movesFrom_behind h]
  exact ⟨rfl, rfl⟩

/-! ## Offsets -/

/-- The offsets of a file that has a longer or shorter front in place of its first `start`
bytes, one of `start'` bytes. -/
def shift (path : String) (start start' : Nat) (file : String) (offset : Nat) : Nat :=
  if file = path ∧ start ≤ offset then start' + (offset - start) else offset

variable {path file : String} {start start' : Nat}

theorem shift_of_ne (h : file ≠ path) (offset : Nat) :
    shift path start start' file offset = offset :=
  if_neg fun hfile => h hfile.1

theorem shift_of_lt (h : offset < start) : shift path start start' path offset = offset :=
  if_neg fun hle => Nat.not_le_of_lt h hle.2

theorem shift_add (path : String) (start start' k : Nat) :
    shift path start start' path (start + k) = start' + k := by
  rw [shift, if_pos ⟨rfl, Nat.le_add_right _ _⟩, Nat.add_sub_cancel_left]

namespace Alike

variable {place : String → Nat → Nat} {front front' : String}

theorem behind (hplace : ∀ k, place path (front.utf8ByteSize + k) = front'.utf8ByteSize + k)
    (rest : String) (ms : List Move) :
    Alike place path (front ++ rest) (front' ++ rest) (ms.map (behind front.utf8ByteSize))
      (ms.map (Flat.behind front'.utf8ByteSize)) := by
  have hslice (start stop : Nat) :
      Text.slice? (front' ++ rest) (front'.utf8ByteSize + start) (front'.utf8ByteSize + stop) =
        Text.slice? (front ++ rest) (front.utf8ByteSize + start) (front.utf8ByteSize + stop) := by
    rw [Text.slice?_append_right, Text.slice?_append_right]
  induction ms with
  | nil => exact nil
  | cons move ms ih =>
      refine cons ?_ ih
      cases move with
      | keep start stop =>
          refine keep (by omega) (hslice start stop) fun i _ => ?_
          rw [Nat.add_assoc, hplace, Nat.add_assoc]
      | comment start indentation => exact comment indentation
      | follow start stop => exact follow (hslice start stop)

/-- The scan of a rest does the same behind two fronts that lead up to it alike. -/
theorem rest (hplace : ∀ k, place path (front.utf8ByteSize + k) = front'.utf8ByteSize + k)
    (hlead : lead (Text.bytes front).reverse = lead (Text.bytes front').reverse) (rest : String) :
    Alike place path (front ++ rest) (front' ++ rest)
      (movesBetween options (Text.bytes (front ++ rest)) front.utf8ByteSize
        (Text.bytes (front ++ rest)).length)
      (movesBetween options (Text.bytes (front' ++ rest)) front'.utf8ByteSize
        (Text.bytes (front' ++ rest)).length) := by
  rw [← Text.length_bytes, ← Text.length_bytes, Text.bytes_append, Text.bytes_append,
    (movesBetween_behind hlead _).1, (movesBetween_behind hlead _).2, Text.length_bytes,
    Text.length_bytes]
  exact behind hplace rest _

theorem keep_front {start stop : Nat} (hplace : ∀ k < stop, place path k = k)
    (hle : start ≤ stop) (hstop : stop ≤ front.utf8ByteSize) (rest rest' : String) :
    Alike place path (front ++ rest) (front ++ rest') [.keep start stop] [.keep start stop] := by
  refine keep rfl ?_ fun i hi => hplace (start + i) (by omega)
  rw [Text.slice?_append_left rest' (by omega) hstop,
    Text.slice?_append_left rest (by omega) hstop]

theorem follow_front {start stop : Nat} (hle : start ≤ stop) (hstop : stop ≤ front.utf8ByteSize)
    (rest rest' : String) :
    Alike place path (front ++ rest) (front ++ rest') [.follow start stop]
      [.follow start stop] := by
  refine follow ?_
  rw [Text.slice?_append_left rest' (by omega) hstop,
    Text.slice?_append_left rest (by omega) hstop]

theorem movesAt_front {s : Step} (hplace : ∀ k < front.utf8ByteSize, place path k = k)
    (hinside : offset + s.width ≤ front.utf8ByteSize)
    (hfollow : ∀ start stop width, s = .follow start stop width → start ≤ stop ∧ stop ≤ width)
    (rest rest' : String) :
    Alike place path (front ++ rest) (front ++ rest') (s.movesAt offset) (s.movesAt offset) := by
  cases s with
  | keep width =>
      rw [Step.width] at hinside
      exact keep_front (fun k hk => hplace k (by omega)) (Nat.le_add_right _ _) hinside rest rest'
  | comment indentation width => exact comment indentation
  | follow start stop width =>
      obtain ⟨hle, hstop⟩ := hfollow start stop width rfl
      rw [Step.width] at hinside
      exact follow_front (by omega) (by omega) rest rest'
  | unwrap kept width => exact nil

end Alike

end Flat

end LatexOrigins
