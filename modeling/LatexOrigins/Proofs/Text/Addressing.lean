import LatexOrigins.Proofs.Results
import LatexOrigins.Proofs.Text.Encoded
import LatexOrigins.Proofs.Text.LineTable

/-!
# Lines, columns and offsets

The starts of the lines, with the end of the text behind them, are the edges that cut a
text into its lines. An edge that is not the first or the last stands just behind a line
break, and no other byte of a text is one, so the lines are those that a reader sees. An
offset is a line and a column in it, in one way only; a column at the end of a line that is
not the last one leads to the same offset as the start of the next line.
-/

namespace LatexOrigins

open Markup (lineBreak)

theorem mem_lineStartsFrom_of_getElem? {base n : Nat} {l : List UInt8}
    (h : l[n]? = some lineBreak) : base + n + 1 ∈ lineStartsFrom base l := by
  induction l generalizing base n with
  | nil => simp at h
  | cons b rest ih =>
      rw [lineStartsFrom]
      cases n with
      | zero =>
          obtain rfl : b = lineBreak := by simpa using h
          exact List.mem_cons_self
      | succ n =>
          have hrest : base + (n + 1) + 1 ∈ lineStartsFrom (base + 1) rest := by
            have hmem : base + 1 + n + 1 ∈ lineStartsFrom (base + 1) rest := ih (by simpa using h)
            rwa [Nat.add_assoc base 1 n, Nat.add_comm 1 n] at hmem
          split
          · exact List.mem_cons_of_mem _ hrest
          · exact hrest

namespace LinedText

variable {t : LinedText} {line column offset k : Nat}

/-! ## Edges -/

/-- Where a line starts; behind the last line, where the text ends. -/
def edge (t : LinedText) (line : Nat) : Nat := t.starts.getD line t.size

theorem lineEnd_eq_edge (t : LinedText) (line : Nat) : t.lineEnd line = t.edge (line + 1) := rfl

theorem lineStart_eq_edge (h : line < t.lineCount) : t.lineStart line = t.edge line := by
  rw [lineStart, edge, Array.getD_eq_getD_getElem?, Array.getD_eq_getD_getElem?,
    Array.getElem?_eq_getElem h, Option.getD_some, Option.getD_some]

theorem lineStart_succ (h : line + 1 < t.lineCount) : t.lineStart (line + 1) = t.lineEnd line := by
  rw [lineStart_eq_edge h, lineEnd_eq_edge]

@[simp] theorem edge_zero (t : LinedText) : t.edge 0 = 0 := by
  simp [edge, t.starts_eq, lineStarts]

theorem edge_of_lineCount_le (h : t.lineCount ≤ line) : t.edge line = t.size := by
  rw [edge, Array.getD_eq_getD_getElem?, Array.getElem?_eq_none h, Option.getD_none]

theorem getElem?_starts (h : line < t.lineCount) :
    (lineStarts (Text.bytes t.text))[line]? = some (t.edge line) := by
  have hstart : t.starts[line]? = some (t.edge line) := by
    rw [edge, Array.getD_eq_getD_getElem?, Array.getElem?_eq_getElem h, Option.getD_some]
  rwa [t.starts_eq, List.getElem?_toArray] at hstart

theorem edge_le_size (t : LinedText) (line : Nat) : t.edge line ≤ t.size := by
  cases line with
  | zero => simp
  | succ line => exact t.lineEnd_le_size line

theorem edge_lt_succ (h : line + 1 < t.lineCount) : t.edge line < t.edge (line + 1) := by
  have hline := getElem?_starts (Nat.lt_of_succ_lt h)
  have hnext := getElem?_starts h
  obtain ⟨hi, hstart⟩ := List.getElem?_eq_some_iff.1 hline
  obtain ⟨hj, hend⟩ := List.getElem?_eq_some_iff.1 hnext
  rw [← hstart, ← hend]
  exact List.pairwise_iff_getElem.1 (pairwise_lineStarts _) _ _ hi hj (Nat.lt_succ_self line)

theorem edge_le_succ (t : LinedText) (line : Nat) : t.edge line ≤ t.edge (line + 1) := by
  by_cases h : line + 1 < t.lineCount
  · exact (edge_lt_succ h).le
  · rw [edge_of_lineCount_le (Nat.le_of_not_lt h)]
    exact t.edge_le_size line

theorem lineAt_eq_iff : t.lineAt offset = line ↔ line < t.lineCount ∧
    t.lineStart line ≤ offset ∧ (offset < t.lineEnd line ∨ line + 1 = t.lineCount) := by
  constructor
  · rintro rfl
    have hline := t.lineAt_lt_lineCount offset
    refine ⟨hline, (lineStart_le_iff hline).2 (Nat.le_refl _), ?_⟩
    by_cases hlast : t.lineAt offset + 1 = t.lineCount
    · exact Or.inr hlast
    · have hnext : t.lineAt offset + 1 < t.lineCount := by omega
      have hbehind : ¬ t.lineStart (t.lineAt offset + 1) ≤ offset :=
        (lineStart_le_iff hnext).not.2 (by omega)
      rw [lineStart_succ hnext] at hbehind
      exact Or.inl (Nat.lt_of_not_le hbehind)
  · rintro ⟨hline, hstart, hend⟩
    have hle := (lineStart_le_iff hline).1 hstart
    have hcount := t.lineAt_lt_lineCount offset
    rcases hend with hend | hlast
    · by_contra hne
      have hnext : line + 1 < t.lineCount := by omega
      have hbehind : t.lineStart (line + 1) ≤ offset := (lineStart_le_iff hnext).2 (by omega)
      rw [lineStart_succ hnext] at hbehind
      omega
    · omega

/-! ## Line breaks -/

/-- A line break ends the line that it lies on, and another line follows; no other byte
does that. -/
theorem lineBreak_iff (h : k < t.size) : (Text.bytes t.text)[k]? = some lineBreak ↔
    t.lineAt k + 1 < t.lineCount ∧ t.lineEnd (t.lineAt k) = k + 1 := by
  constructor
  · intro hbreak
    have hmem : k + 1 ∈ lineStarts (Text.bytes t.text) := by
      have hstarts : 0 + k + 1 ∈ lineStartsFrom 0 (Text.bytes t.text) :=
        mem_lineStartsFrom_of_getElem? hbreak
      rw [Nat.zero_add] at hstarts
      exact List.mem_cons_of_mem _ hstarts
    obtain ⟨next, hnext⟩ := List.mem_iff_getElem?.1 hmem
    have hstart : t.starts[next]? = some (k + 1) := by rwa [t.starts_eq, List.getElem?_toArray]
    have hbefore : ¬ next ≤ t.lineAt k := (start_le_iff hstart).not.1 (by omega)
    have hreached : next ≤ t.lineAt (k + 1) := (start_le_iff hstart).1 (Nat.le_refl _)
    have hlast := t.lineAt_lt_lineCount (k + 1)
    have hinside := (lt_lineEnd_iff h).2 (Nat.le_refl (t.lineAt k))
    refine ⟨by omega, ?_⟩
    by_cases hsize : k + 1 < t.size
    · have hbehind : ¬ k + 1 < t.lineEnd (t.lineAt k) := (lt_lineEnd_iff hsize).not.2 (by omega)
      omega
    · have hle := t.lineEnd_le_size (t.lineAt k)
      omega
  · rintro ⟨hnext, hend⟩
    have hstart := List.mem_of_getElem? (getElem?_starts hnext)
    rw [← lineEnd_eq_edge, hend, lineStarts, List.mem_cons] at hstart
    rcases hstart with hzero | hmem
    · omega
    · rw [← Nat.zero_add k] at hmem
      exact getElem?_of_mem_lineStartsFrom hmem

theorem lineBreak_before_edge (h : line + 1 < t.lineCount) :
    (Text.bytes t.text)[t.edge (line + 1) - 1]? = some lineBreak := by
  have hlt := edge_lt_succ h
  have hsize := t.edge_le_size (line + 1)
  have hinside : t.edge (line + 1) - 1 < t.size := by omega
  have hat : t.lineAt (t.edge (line + 1) - 1) = line := by
    rw [lineAt_eq_iff, lineStart_eq_edge (Nat.lt_of_succ_lt h), lineEnd_eq_edge]
    omega
  rw [lineBreak_iff hinside, hat, lineEnd_eq_edge]
  omega

theorem ne_lineBreak_inside (h : line < t.lineCount) (hstart : t.edge line ≤ k)
    (hend : k < t.edge (line + 1)) (hlast : line + 1 < t.lineCount → k + 1 ≠ t.edge (line + 1)) :
    (Text.bytes t.text)[k]? ≠ some lineBreak := by
  have hinside := Nat.lt_of_lt_of_le hend (t.edge_le_size (line + 1))
  have hat : t.lineAt k = line := by
    rw [lineAt_eq_iff, lineStart_eq_edge h, lineEnd_eq_edge]
    omega
  rw [ne_eq, lineBreak_iff hinside, hat, lineEnd_eq_edge]
  rintro ⟨hnext, hbreak⟩
  exact hlast hnext hbreak.symm

theorem isBoundary_edge (t : LinedText) (line : Nat) :
    Text.isBoundary t.text (t.edge line) = true := by
  rw [Text.isBoundary_iff_encoded]
  refine ⟨t.edge_le_size line, ?_⟩
  have hencoded := Text.encoded_bytes t.text
  cases line with
  | zero => rwa [edge_zero, List.drop_zero]
  | succ line =>
      by_cases h : line + 1 < t.lineCount
      · have hpos := edge_lt_succ h
        have hdrop := (hencoded.drop_ascii (lineBreak_before_edge h) (by decide)).2
        rwa [Nat.sub_add_cancel (by omega)] at hdrop
      · have hsize : (Text.bytes t.text).length ≤ t.edge (line + 1) :=
          (edge_of_lineCount_le (Nat.le_of_not_lt h)).ge
        rw [List.drop_eq_nil_of_le hsize]
        exact Text.encoded_nil

/-! ## The lines of a text -/

theorem exists_line (h : line < t.lineCount) : ∃ s, t.line line = .ok s ∧
    Text.bytes s = ((Text.bytes t.text).drop (t.edge line)).take
      (t.edge (line + 1) - t.edge line) := by
  obtain ⟨s, hs⟩ := Option.isSome_iff_exists.1 <| Text.slice?_isSome_iff.2
    ⟨t.isBoundary_edge line, t.isBoundary_edge (line + 1), t.edge_le_succ line⟩
  refine ⟨s, ?_, Text.bytes_of_slice? hs⟩
  rw [LinedText.line, if_pos h, lineStart_eq_edge h, lineEnd_eq_edge, hs]

theorem flatMap_edges (t : LinedText) (count : Nat) :
    ((List.range count).flatMap fun n => ((Text.bytes t.text).drop (t.edge n)).take
      (t.edge (n + 1) - t.edge n)) = (Text.bytes t.text).take (t.edge count) := by
  induction count with
  | zero => simp
  | succ count ih =>
      have hsplit : t.edge (count + 1) = t.edge count + (t.edge (count + 1) - t.edge count) := by
        have hle := t.edge_le_succ count
        omega
      rw [List.range_succ, List.flatMap_append, ih, List.flatMap_singleton]
      conv => rhs; rw [hsplit, List.take_add]

/-- The lines of a text: they can all be read, together they are the text, and a line break
ends each of them but the last and occurs nowhere else. -/
structure HasLines (t : LinedText) (lines : List String) : Prop where
  read : (List.range t.lineCount).map t.line = lines.map .ok
  join_eq : String.join lines = t.text
  broken : ∀ n s, lines[n]? = some s → n + 1 < lines.length →
    ∃ front, s = front ++ "\n" ∧ '\n' ∉ front.toList
  unbroken : ∀ n s, lines[n]? = some s → n + 1 = lines.length → '\n' ∉ s.toList

/-- A line break between the edges of a line, the last byte of the line left aside, would end
the line. -/
theorem not_mem_line {s : String} {count : Nat} (h : line < t.lineCount)
    (hcount : t.edge line + count ≤ t.edge (line + 1))
    (hlast : line + 1 < t.lineCount → t.edge line + count < t.edge (line + 1))
    (hs : Text.bytes s = ((Text.bytes t.text).drop (t.edge line)).take count) :
    '\n' ∉ s.toList := by
  intro hmem
  have hbyte : lineBreak ∈ Text.bytes s := by
    rw [Text.bytes_eq_flatMap]
    exact List.mem_flatMap.2 ⟨'\n', hmem, by decide⟩
  rw [hs] at hbyte
  obtain ⟨k, hk⟩ := List.mem_iff_getElem?.1 hbyte
  rw [List.getElem?_take] at hk
  split at hk
  · next hlt =>
    rw [List.getElem?_drop] at hk
    have hbefore : line + 1 < t.lineCount → t.edge line + k + 1 ≠ t.edge (line + 1) := by
      intro hnext
      have hfront := hlast hnext
      omega
    exact ne_lineBreak_inside h (by omega) (by omega) hbefore hk
  · cases hk

section Lines

variable {lines : List String} {s : String}

theorem bytes_of_read (hread : (List.range t.lineCount).map t.line = lines.map .ok)
    (hs : lines[line]? = some s) : line < t.lineCount ∧ Text.bytes s =
      ((Text.bytes t.text).drop (t.edge line)).take (t.edge (line + 1) - t.edge line) := by
  have hat := congrArg (·[line]?) hread
  simp only [List.getElem?_map, hs, Option.map_some] at hat
  obtain ⟨n, hn, hline⟩ := Option.map_eq_some_iff.1 hat
  obtain ⟨hlt, rfl⟩ := List.getElem?_eq_some_iff.1 hn
  rw [List.length_range] at hlt
  rw [List.getElem_range] at hline
  obtain ⟨text, htext, hbytes⟩ := exists_line hlt
  obtain rfl : text = s := Except.ok.inj (htext.symm.trans hline)
  exact ⟨hlt, hbytes⟩

theorem length_of_read (hread : (List.range t.lineCount).map t.line = lines.map .ok) :
    lines.length = t.lineCount := by
  have hcounts := congrArg List.length hread
  rwa [List.length_map, List.length_map, List.length_range, eq_comm] at hcounts

theorem join_of_read (hread : (List.range t.lineCount).map t.line = lines.map .ok) :
    String.join lines = t.text := by
  have hparts : lines.map Text.bytes = (List.range t.lineCount).map fun n =>
      ((Text.bytes t.text).drop (t.edge n)).take (t.edge (n + 1) - t.edge n) := by
    apply List.ext_getElem
    · rw [List.length_map, List.length_map, List.length_range, length_of_read hread]
    · intro n hn _
      rw [List.length_map] at hn
      rw [List.getElem_map, List.getElem_map, List.getElem_range,
        (bytes_of_read hread (List.getElem?_eq_getElem hn)).2]
  have hend : t.edge t.lineCount = (Text.bytes t.text).length :=
    edge_of_lineCount_le (Nat.le_refl _)
  apply Text.bytes_injective
  rw [Text.bytes_join, List.flatMap_def, hparts, ← List.flatMap_def, flatMap_edges, hend,
    List.take_length]

theorem exists_hasLines (t : LinedText) : ∃ lines, t.HasLines lines := by
  obtain ⟨lines, hread⟩ := Results.exists_map_eq_map_ok (f := t.line) (l := List.range t.lineCount)
    fun n hn => (exists_line (List.mem_range.1 hn)).imp fun _ hs => hs.1
  refine ⟨lines, hread, join_of_read hread, ?_, ?_⟩
  · intro n s hs hnext
    obtain ⟨hn, hbytes⟩ := bytes_of_read hread hs
    rw [length_of_read hread] at hnext
    have hlt := edge_lt_succ hnext
    have hcount : t.edge (n + 1) - t.edge n = t.edge (n + 1) - 1 - t.edge n + 1 := by omega
    have hlast : t.edge n + (t.edge (n + 1) - 1 - t.edge n) = t.edge (n + 1) - 1 := by omega
    rw [hcount, List.take_add_one, List.getElem?_drop, hlast, lineBreak_before_edge hnext] at hbytes
    have hbreak : Text.bytes "\n" = [lineBreak] := by decide
    -- What stands before the break is a text too, and the break is not in it.
    have hencoded : Text.Encoded (Text.bytes s) := Text.encoded_bytes s
    rw [hbytes] at hencoded
    obtain ⟨front, hfront⟩ :=
      (hencoded.of_append (y := [lineBreak]) (hbreak ▸ Text.encoded_bytes "\n")).exists_string
    refine ⟨front, Text.bytes_injective ?_, not_mem_line hn (by omega) (by omega) hfront⟩
    rw [Text.bytes_append, hfront, hbreak, hbytes]
    rfl
  · intro n s hs hlast
    obtain ⟨hn, hbytes⟩ := bytes_of_read hread hs
    rw [length_of_read hread] at hlast
    have hle := t.edge_le_succ n
    exact not_mem_line hn (by omega) (by omega) hbytes

/-! ## Columns -/

/-- A column in one of some lines: before the end of the line, or at the end of the last. -/
def Inside (lines : List String) (line column : Nat) : Prop :=
  ∃ s, lines[line]? = some s ∧
    (column < s.utf8ByteSize ∨ line + 1 = lines.length ∧ column ≤ s.utf8ByteSize)

theorem HasLines.utf8ByteSize_eq (h : t.HasLines lines) (hs : lines[line]? = some s) :
    line < t.lineCount ∧ t.lineStart line + s.utf8ByteSize = t.lineEnd line := by
  obtain ⟨hline, hbytes⟩ := bytes_of_read h.read hs
  have hsize := congrArg List.length hbytes
  have hle := t.edge_le_succ line
  have hinside := t.edge_le_size (line + 1)
  rw [Text.length_bytes, List.length_take, List.length_drop, Text.length_bytes] at hsize
  rw [lineStart_eq_edge hline, lineEnd_eq_edge]
  rw [LinedText.size] at hinside
  omega

theorem HasLines.exists_iff (h : t.HasLines lines) :
    (∃ s, lines[line]? = some s) ↔ line < t.lineCount := by
  rw [← length_of_read h.read]
  constructor
  · rintro ⟨s, hs⟩
    exact (List.getElem?_eq_some_iff.1 hs).1
  · exact fun hline => ⟨_, List.getElem?_eq_getElem hline⟩

theorem lineEnd_of_last (h : line + 1 = t.lineCount) : t.lineEnd line = t.size := by
  rw [lineEnd_eq_edge, edge_of_lineCount_le h.ge]

theorem HasLines.inside_iff (h : t.HasLines lines) : Inside lines line column ↔
    t.lineStart line + column ≤ t.size ∧ t.lineAt (t.lineStart line + column) = line := by
  rw [lineAt_eq_iff]
  constructor
  · rintro ⟨s, hs, hcolumn⟩
    obtain ⟨hline, hend⟩ := h.utf8ByteSize_eq hs
    have hsize := t.lineEnd_le_size line
    rw [length_of_read h.read] at hcolumn
    exact ⟨by omega, hline, Nat.le_add_right _ _, by omega⟩
  · rintro ⟨hsize, hline, -, hcolumn⟩
    obtain ⟨s, hs⟩ := h.exists_iff.2 hline
    obtain ⟨-, hend⟩ := h.utf8ByteSize_eq hs
    refine ⟨s, hs, ?_⟩
    rw [length_of_read h.read]
    rcases hcolumn with hcolumn | hlast
    · omega
    · have hwhole := lineEnd_of_last hlast
      omega

theorem lineStart_add_column (t : LinedText) (offset : Nat) :
    t.lineStart (t.lineAt offset) + (t.position offset).column = offset := by
  have hstart := (lineStart_le_iff (t.lineAt_lt_lineCount offset)).2 (Nat.le_refl _)
  rw [position, Nat.add_sub_cancel' hstart]

theorem lineColumnAt_eq_ok (h : offset ≤ t.size) :
    t.lineColumnAt offset = .ok (t.lineAt offset, (t.position offset).column) := by
  rw [lineColumnAt, positionAt_eq_ok h]
  rfl

theorem offsetAt_eq_ok {overflow : Overflow} (hline : line < t.lineCount)
    (hsize : t.lineStart line + column ≤ t.size) :
    t.offsetAt line column overflow = .ok (t.lineStart line + column) := by
  rw [offsetAt, if_pos hline, columnOffset_of_le hsize]
  exact if_pos hsize

theorem position_of_positionAt {p : Position} (h : t.positionAt offset = .ok p) :
    t.position offset = p := by
  unfold positionAt at h
  split at h
  · exact Except.ok.inj h
  · cases h

theorem position_increasing {a b : Nat} (h : a < b) :
    (t.position a).line < (t.position b).line ∨
      (t.position a).line = (t.position b).line ∧
        (t.position a).column < (t.position b).column := by
  have ha := t.lineStart_add_column a
  have hb := t.lineStart_add_column b
  rcases Nat.lt_or_eq_of_le (t.lineAt_mono h.le) with hlt | heq
  · exact Or.inl hlt
  · refine Or.inr ⟨heq, ?_⟩
    rw [heq] at ha
    omega

theorem position_lt_iff (t : LinedText) {a b : Nat} : a < b ↔
    (t.position a).line < (t.position b).line ∨
      (t.position a).line = (t.position b).line ∧
        (t.position a).column < (t.position b).column := by
  refine ⟨position_increasing, fun hbefore => ?_⟩
  by_contra hnot
  rcases Nat.lt_or_eq_of_le (Nat.le_of_not_lt hnot) with hlt | rfl
  · have hafter := t.position_increasing hlt
    omega
  · omega

theorem HasLines.inside_lineAt (h : t.HasLines lines) (hoffset : offset ≤ t.size) :
    Inside lines (t.lineAt offset) (t.position offset).column := by
  rw [h.inside_iff, lineStart_add_column]
  exact ⟨hoffset, rfl⟩

theorem offsetAt_lineAt (h : offset ≤ t.size) :
    t.offsetAt (t.lineAt offset) (t.position offset).column = .ok offset := by
  have hplace := t.lineStart_add_column offset
  rw [offsetAt_eq_ok (t.lineAt_lt_lineCount offset) (hplace.trans_le h), hplace]

theorem HasLines.lineColumnAt_of_inside (h : t.HasLines lines)
    (hinside : Inside lines line column) : t.lineStart line + column ≤ t.size ∧
      t.offsetAt line column = .ok (t.lineStart line + column) ∧
      t.lineColumnAt (t.lineStart line + column) = .ok (line, column) := by
  obtain ⟨hsize, hline⟩ := h.inside_iff.1 hinside
  have hcount := t.lineAt_lt_lineCount (t.lineStart line + column)
  have hplace := t.lineStart_add_column (t.lineStart line + column)
  rw [hline] at hcount hplace
  refine ⟨hsize, offsetAt_eq_ok hcount hsize, ?_⟩
  rw [lineColumnAt_eq_ok hsize, hline, Nat.add_left_cancel hplace]

/-- A line and a column name a place if the line exists and is long enough. -/
theorem HasLines.find?_eq_some_iff (h : t.HasLines lines) {p : Position} :
    t.find? (.lineColumn line column) = some p ↔
      (∃ s, lines[line]? = some s ∧ column ≤ s.utf8ByteSize) ∧
        p = ⟨t.lineStart line + column, line, column⟩ := by
  have hreaches : (∃ s, lines[line]? = some s ∧ column ≤ s.utf8ByteSize) ↔
      line < t.lineCount ∧ t.lineStart line + column ≤ t.lineEnd line := by
    constructor
    · rintro ⟨s, hs, hcolumn⟩
      obtain ⟨hline, hend⟩ := h.utf8ByteSize_eq hs
      exact ⟨hline, by omega⟩
    · rintro ⟨hline, hcolumn⟩
      obtain ⟨s, hs⟩ := h.exists_iff.2 hline
      have hend := (h.utf8ByteSize_eq hs).2
      exact ⟨s, hs, by omega⟩
  rw [hreaches, find?]
  simp only
  split
  · next hline =>
    split
    · next hcolumn => simp only [Option.some.injEq, hline, hcolumn, true_and, eq_comm]
    · next hcolumn => simp [hcolumn]
  · next hline => simp [hline]

theorem position_of_lineAt (h : t.lineAt (t.lineStart line + column) = line) :
    t.position (t.lineStart line + column) = ⟨t.lineStart line + column, line, column⟩ := by
  rw [position, h, Nat.add_sub_cancel_left]

theorem lineAt_lineStart (h : line < t.lineCount) : t.lineAt (t.lineStart line) = line := by
  refine lineAt_eq_iff.2 ⟨h, Nat.le_refl _, ?_⟩
  by_cases hnext : line + 1 < t.lineCount
  · have hlt := edge_lt_succ hnext
    rw [← lineStart_eq_edge h, ← lineEnd_eq_edge] at hlt
    exact Or.inl hlt
  · exact Or.inr (by omega)

theorem HasLines.position_eq (h : t.HasLines lines) (hs : lines[line]? = some s)
    (hcolumn : column ≤ s.utf8ByteSize) : t.position (t.lineStart line + column) =
      if column = s.utf8ByteSize ∧ line + 1 < lines.length then
        ⟨t.lineStart line + column, line + 1, 0⟩
      else ⟨t.lineStart line + column, line, column⟩ := by
  obtain ⟨hline, hend⟩ := h.utf8ByteSize_eq hs
  rw [length_of_read h.read]
  split
  · next hfull =>
    have hnext := hfull.2
    have hstart : t.lineStart line + column = t.lineStart (line + 1) + 0 := by
      rw [lineStart_succ hnext, ← hend, hfull.1, Nat.add_zero]
    rw [hstart]
    exact position_of_lineAt (lineAt_lineStart hnext)
  · next hpart => exact position_of_lineAt (lineAt_eq_iff.2 ⟨hline, by omega, by omega⟩)

/-- A place that a line and a column name is the one of its offset, unless it is the end of
a line that is not the last one. -/
theorem HasLines.found (h : t.HasLines lines) {p : Position}
    (hp : t.find? (.lineColumn line column) = some p) (hs : lines[line]? = some s) :
    p.line = line ∧ p.column = column ∧ t.offsetAt line column = .ok p.offset ∧
      t.positionAt p.offset = .ok
        (if column = s.utf8ByteSize ∧ line + 1 < lines.length then ⟨p.offset, line + 1, 0⟩
        else p) := by
  obtain ⟨⟨s', hs', hcolumn⟩, rfl⟩ := h.find?_eq_some_iff.1 hp
  obtain rfl : s' = s := Option.some.inj (hs'.symm.trans hs)
  obtain ⟨hline, hend⟩ := h.utf8ByteSize_eq hs
  have hinside := t.lineEnd_le_size line
  have hsize : t.lineStart line + column ≤ t.size := by omega
  refine ⟨rfl, rfl, offsetAt_eq_ok hline hsize, ?_⟩
  rw [positionAt_eq_ok hsize, h.position_eq hs hcolumn]

/-- Offsets and pairs of a line and a column name the same places in a text with some
lines. -/
structure Addresses (t : LinedText) (lines : List String) : Prop where
  pair_of_offset : ∀ offset ≤ t.size, ∃ line column,
    t.lineColumnAt offset = .ok (line, column) ∧ Inside lines line column ∧
      t.offsetAt line column = .ok offset
  offset_of_pair : ∀ line column, Inside lines line column → ∃ offset ≤ t.size,
    t.offsetAt line column = .ok offset ∧ t.lineColumnAt offset = .ok (line, column)
  increasing : ∀ a b p q, t.positionAt a = .ok p → t.positionAt b = .ok q →
    (a < b ↔ p.line < q.line ∨ p.line = q.line ∧ p.column < q.column)
  found_iff : ∀ line column, (t.find? (.lineColumn line column)).isSome ↔
    ∃ s, lines[line]? = some s ∧ column ≤ s.utf8ByteSize
  /-- The end of a line that is not the last one is found on that line, but the offset lies
  on the next one. -/
  found : ∀ line column p s, t.find? (.lineColumn line column) = some p →
    lines[line]? = some s →
      p.line = line ∧ p.column = column ∧ t.offsetAt line column = .ok p.offset ∧
        t.positionAt p.offset = .ok
          (if column = s.utf8ByteSize ∧ line + 1 < lines.length then ⟨p.offset, line + 1, 0⟩
          else p)
  /-- The search for a position finds it as long as words can count so far. -/
  checked : ∀ line column overflow, t.lineStart line + column < wordLimit →
    t.check? overflow (.lineColumn line column) = .ok (t.find? (.lineColumn line column))

/-- A text has lines, and offsets and pairs of a line and a column name the same places in
it: each offset is one column of one line, later ones come later, and a pair is found
exactly if the line is long enough. -/
theorem lines_addressed (t : LinedText) : ∃ lines, t.HasLines lines ∧ t.Addresses lines := by
  obtain ⟨lines, h⟩ := t.exists_hasLines
  refine ⟨lines, h, fun offset hoffset => ?_, fun line column hinside => ?_, ?_,
    fun line column => ?_, fun line column p s => h.found, fun line column overflow hlt => ?_⟩
  · exact ⟨_, _, lineColumnAt_eq_ok hoffset, h.inside_lineAt hoffset, offsetAt_lineAt hoffset⟩
  · obtain ⟨hsize, hoffset, hpair⟩ := h.lineColumnAt_of_inside hinside
    exact ⟨_, hsize, hoffset, hpair⟩
  · intro a b p q hp hq
    obtain rfl : t.position a = p := position_of_positionAt hp
    obtain rfl : t.position b = q := position_of_positionAt hq
    exact t.position_lt_iff
  · rw [Option.isSome_iff_exists]
    simp only [h.find?_eq_some_iff, exists_and_left, exists_eq, and_true]
  · refine check?_eq_find? ?_ overflow
    rintro ⟨-, -, hlimit⟩
    exact Nat.not_le.2 hlt hlimit

/-- The end of the line `é` is also the start of the line behind it. -/
example : (ofString "é\nb").find? (.lineColumn 0 3) = some ⟨3, 0, 3⟩ ∧
    (ofString "é\nb").positionAt 3 = .ok ⟨3, 1, 0⟩ := by
  decide

end Lines

end LinedText

end LatexOrigins
