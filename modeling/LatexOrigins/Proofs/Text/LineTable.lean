import LatexOrigins.Text.Lined
import Mathlib.Order.Interval.Finset.Nat

/-!
# The lines of a text

Line starts increase, so counting the starts up to an offset finds the line that
the offset lies on, and a line is the range from its start to its end. Two bytes
that follow each other lie on one line unless the first of them is a line break.
-/

namespace LatexOrigins

/-! ## Line starts -/

theorem lt_of_mem_lineStartsFrom {base start : Nat} {l : List UInt8}
    (h : start ∈ lineStartsFrom base l) : base < start := by
  induction l generalizing base with
  | nil => simp [lineStartsFrom] at h
  | cons b rest ih =>
      rw [lineStartsFrom] at h
      split at h
      · rcases List.mem_cons.1 h with rfl | h
        · exact Nat.lt_succ_self base
        · exact (Nat.lt_succ_self base).trans (ih h)
      · exact (Nat.lt_succ_self base).trans (ih h)

theorem le_of_mem_lineStartsFrom {base start : Nat} {l : List UInt8}
    (h : start ∈ lineStartsFrom base l) : start ≤ base + l.length := by
  induction l generalizing base with
  | nil => simp [lineStartsFrom] at h
  | cons b rest ih =>
      rw [lineStartsFrom] at h
      rw [List.length_cons]
      split at h
      · rcases List.mem_cons.1 h with rfl | h
        · omega
        · have := ih h
          omega
      · have := ih h
        omega

/-- A line that is not the first starts just behind a line break. -/
theorem getElem?_of_mem_lineStartsFrom {base n : Nat} {l : List UInt8}
    (h : base + n + 1 ∈ lineStartsFrom base l) : l[n]? = some 0x0a := by
  induction l generalizing base n with
  | nil => simp [lineStartsFrom] at h
  | cons b rest ih =>
      have hrest : base + n + 1 ∈ lineStartsFrom (base + 1) rest → (b :: rest)[n]? = some 0x0a := by
        intro hmem
        have hlt := lt_of_mem_lineStartsFrom hmem
        obtain ⟨m, rfl⟩ : ∃ m, n = m + 1 := ⟨n - 1, by omega⟩
        rw [List.getElem?_cons_succ]
        apply ih
        rwa [Nat.add_assoc base 1 m, Nat.add_comm 1 m]
      rw [lineStartsFrom] at h
      split at h
      · next hb =>
        rcases List.mem_cons.1 h with hfirst | h
        · obtain rfl : n = 0 := by omega
          rw [List.getElem?_cons_zero, hb]
        · exact hrest h
      · exact hrest h

theorem pairwise_lineStartsFrom (base : Nat) (l : List UInt8) :
    (lineStartsFrom base l).Pairwise (· < ·) := by
  induction l generalizing base with
  | nil => exact List.Pairwise.nil
  | cons b rest ih =>
      rw [lineStartsFrom]
      split
      · exact List.pairwise_cons.2 ⟨fun _ => lt_of_mem_lineStartsFrom, ih (base + 1)⟩
      · exact ih (base + 1)

theorem pairwise_lineStarts (l : List UInt8) : (lineStarts l).Pairwise (· < ·) := by
  apply List.pairwise_cons.2
  exact ⟨fun _ => lt_of_mem_lineStartsFrom, pairwise_lineStartsFrom 0 l⟩

theorem getElem?_le_iff {l : List Nat} {i start bound : Nat} (h : l.Pairwise (· < ·))
    (hi : l[i]? = some start) : start ≤ bound ↔ i < l.countP (· ≤ bound) := by
  induction l generalizing i with
  | nil => simp at hi
  | cons first rest ih =>
      obtain ⟨hfirst, hrest⟩ := List.pairwise_cons.1 h
      rw [List.countP_cons]
      cases i with
      | zero =>
          obtain rfl : first = start := by simpa using hi
          by_cases hle : first ≤ bound
          · simp [hle]
          · have hnone : rest.countP (· ≤ bound) = 0 := by
              rw [List.countP_eq_zero]
              intro other hother
              have := hfirst other hother
              simp only [decide_eq_true_eq]
              omega
            simp [hle, hnone]
      | succ i =>
          rw [List.getElem?_cons_succ] at hi
          have hlt := hfirst start (List.mem_of_getElem? hi)
          rw [ih hrest hi]
          by_cases hle : first ≤ bound
          · simp [hle]
          · have hnone := (ih hrest hi).not.1 (by omega)
            simp only [hle, decide_false, Bool.false_eq_true, if_false]
            omega

namespace LinedText

variable {t : LinedText} {line offset : Nat}

theorem lineEnd_le_size (t : LinedText) (line : Nat) : t.lineEnd line ≤ t.size := by
  rw [lineEnd, Array.getD_eq_getD_getElem?]
  cases h : t.starts[line + 1]? with
  | none => exact Nat.le_refl _
  | some start =>
      have hmem := Array.mem_of_getElem? h
      rw [t.starts_eq, List.mem_toArray, lineStarts] at hmem
      rcases List.mem_cons.1 hmem with rfl | hmem
      · exact Nat.zero_le _
      · have hle := le_of_mem_lineStartsFrom hmem
        rwa [Nat.zero_add, Text.length_bytes] at hle

/-! ## The line of an offset -/

theorem lineAt_eq (t : LinedText) (offset : Nat) :
    t.lineAt offset + 1 = (lineStarts (Text.bytes t.text)).countP (· ≤ offset) := by
  rw [lineAt, t.starts_eq, List.countP_toArray]
  apply Nat.sub_add_cancel
  rw [lineStarts, List.countP_cons_of_pos (by simp)]
  exact Nat.succ_pos _

theorem start_le_iff {start : Nat} (h : t.starts[line]? = some start) :
    start ≤ offset ↔ line ≤ t.lineAt offset := by
  rw [t.starts_eq, List.getElem?_toArray] at h
  rw [getElem?_le_iff (pairwise_lineStarts _) h, ← lineAt_eq, Nat.lt_succ_iff]

theorem lineAt_lt_lineCount (t : LinedText) (offset : Nat) : t.lineAt offset < t.lineCount := by
  have hle := (lineStarts (Text.bytes t.text)).countP_le_length (p := (· ≤ offset))
  rw [← lineAt_eq] at hle
  rw [lineCount, t.starts_eq]
  exact hle

theorem lineStart_le_iff (h : line < t.lineCount) :
    t.lineStart line ≤ offset ↔ line ≤ t.lineAt offset := by
  have hstart : t.starts[line]? = some (t.lineStart line) := by
    rw [lineStart, Array.getElem?_eq_getElem h, Array.getD_eq_getD_getElem?,
      Array.getElem?_eq_getElem h, Option.getD_some]
  exact start_le_iff hstart

theorem lt_lineEnd_iff (h : offset < t.size) :
    offset < t.lineEnd line ↔ t.lineAt offset ≤ line := by
  rw [lineEnd, Array.getD_eq_getD_getElem?]
  cases hnext : t.starts[line + 1]? with
  | some start =>
      rw [Option.getD_some, ← Nat.not_le, start_le_iff hnext]
      omega
  | none =>
      -- The line is the last one, or there are not that many.
      have hlast := Array.getElem?_eq_none_iff.1 hnext
      have hline := t.lineAt_lt_lineCount offset
      rw [lineCount] at hline
      simp only [Option.getD_none, h, true_iff]
      omega

theorem lineAt_mono (t : LinedText) {offset other : Nat} (h : offset ≤ other) :
    t.lineAt offset ≤ t.lineAt other := by
  have hcount : (lineStarts (Text.bytes t.text)).countP (· ≤ offset) ≤
      (lineStarts (Text.bytes t.text)).countP (· ≤ other) := by
    apply List.countP_mono_left
    intro start _ hstart
    simp only [decide_eq_true_eq] at hstart ⊢
    exact hstart.trans h
  rw [← lineAt_eq, ← lineAt_eq] at hcount
  exact Nat.le_of_succ_le_succ hcount

theorem lineAt_succ (h : (Text.bytes t.text)[offset]? ≠ some 0x0a) :
    t.lineAt (offset + 1) = t.lineAt offset := by
  have hcount : (lineStarts (Text.bytes t.text)).countP (· ≤ offset + 1) =
      (lineStarts (Text.bytes t.text)).countP (· ≤ offset) := by
    apply List.countP_congr
    intro start hstart
    simp only [decide_eq_true_eq]
    -- Only a line that starts just behind the offset could make a difference.
    have hne : start ≠ offset + 1 := by
      rintro rfl
      rcases List.mem_cons.1 hstart with hzero | hmem
      · omega
      · apply h
        rw [← Nat.zero_add offset] at hmem
        exact getElem?_of_mem_lineStartsFrom hmem
    omega
  rw [← lineAt_eq, ← lineAt_eq] at hcount
  exact Nat.succ.inj hcount

theorem positionAt_eq_ok (h : offset ≤ t.size) :
    t.positionAt offset = .ok (t.position offset) := by
  rw [positionAt, if_pos h]

/-! ## Lines as ranges -/

/-- The offsets of a line with its break. There are no lines behind the last. -/
def lineOffsets (t : LinedText) (line : Nat) : Finset Nat :=
  if line < t.lineCount then Finset.Ico (t.lineStart line) (t.lineEnd line) else ∅

theorem mem_lineOffsets :
    offset ∈ t.lineOffsets line ↔ offset < t.size ∧ t.lineAt offset = line := by
  rw [lineOffsets]
  split
  · next hline =>
    rw [Finset.mem_Ico, lineStart_le_iff hline]
    constructor
    · rintro ⟨hstart, hend⟩
      have hsize := Nat.lt_of_lt_of_le hend (t.lineEnd_le_size line)
      exact ⟨hsize, Nat.le_antisymm ((lt_lineEnd_iff hsize).1 hend) hstart⟩
    · rintro ⟨hsize, rfl⟩
      exact ⟨Nat.le_refl _, (lt_lineEnd_iff hsize).2 (Nat.le_refl _)⟩
  · next hline =>
    have hnot : t.lineAt offset ≠ line := by
      rintro rfl
      exact hline (t.lineAt_lt_lineCount offset)
    simp [hnot]

end LinedText

end LatexOrigins
