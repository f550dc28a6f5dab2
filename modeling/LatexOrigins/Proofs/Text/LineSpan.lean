import LatexOrigins.Proofs.Results
import LatexOrigins.Text.LineSpan
import Mathlib.Order.Bounds.Basic

/-!
# The line that stands for scattered positions

Which line is reported, said without the algorithm, and what the reported span
has to do with the positions on that line: it starts at one of them, ends just
after one of them, and encloses them all. No other line and no other two positions
do, so the positions may be met in any order. Just after the last position that
words can count there is none.
-/

namespace LatexOrigins

/-! ## The order of positions -/

namespace Position

/-- Order by offset, then line, then column. -/
def Precedes (p q : Position) : Prop :=
  p.offset < q.offset ∨
    p.offset = q.offset ∧ (p.line < q.line ∨ p.line = q.line ∧ p.column ≤ q.column)

theorem compare_isLT_iff (p q : Position) :
    (compare p q).isLT = true ↔ ¬ Precedes q p := by
  unfold compare Precedes
  rcases Nat.lt_trichotomy p.offset q.offset with h | h | h
  · rw [Nat.compare_eq_lt.2 h]
    simp only [Ordering.then, Ordering.isLT, true_iff]
    omega
  · rw [Nat.compare_eq_eq.2 h]
    rcases Nat.lt_trichotomy p.line q.line with hl | hl | hl
    · rw [Nat.compare_eq_lt.2 hl]
      simp only [Ordering.then, Ordering.isLT, true_iff]
      omega
    · rw [Nat.compare_eq_eq.2 hl]
      simp only [Ordering.then, Ordering.isLT_iff_eq_lt, Nat.compare_eq_lt]
      omega
    · rw [Nat.compare_eq_gt.2 hl]
      simp only [Ordering.then, Ordering.isLT, Bool.false_eq_true, false_iff]
      omega
  · rw [Nat.compare_eq_gt.2 h]
    simp only [Ordering.then, Ordering.isLT, Bool.false_eq_true, false_iff]
    omega

theorem Precedes.refl (p : Position) : Precedes p p := by
  unfold Precedes
  omega

theorem Precedes.trans {p q r : Position} (hpq : Precedes p q) (hqr : Precedes q r) :
    Precedes p r := by
  unfold Precedes at *
  omega

theorem Precedes.antisymm {p q : Position} (hpq : Precedes p q) (hqp : Precedes q p) : p = q := by
  unfold Precedes at *
  rw [Position.mk.injEq]
  omega

theorem Precedes.total (p q : Position) : Precedes p q ∨ Precedes q p := by
  unfold Precedes
  omega

theorem Precedes.offset_le {p q : Position} (h : Precedes p q) : p.offset ≤ q.offset := by
  unfold Precedes at h
  omega

theorem min_eq_or (p q : Position) : min p q = p ∨ min p q = q := by
  unfold min
  split
  · exact Or.inr rfl
  · exact Or.inl rfl

theorem max_eq_or (p q : Position) : max p q = p ∨ max p q = q := by
  unfold max
  split
  · exact Or.inr rfl
  · exact Or.inl rfl

theorem min_precedes (p q : Position) : Precedes (min p q) p ∧ Precedes (min p q) q := by
  unfold min
  split
  · next h =>
    rw [compare_isLT_iff] at h
    exact ⟨(Precedes.total p q).resolve_left h, Precedes.refl q⟩
  · next h =>
    rw [compare_isLT_iff, not_not] at h
    exact ⟨Precedes.refl p, h⟩

theorem precedes_max (p q : Position) : Precedes p (max p q) ∧ Precedes q (max p q) := by
  unfold max
  split
  · next h =>
    rw [compare_isLT_iff] at h
    exact ⟨(Precedes.total p q).resolve_right h, Precedes.refl q⟩
  · next h =>
    rw [compare_isLT_iff, not_not] at h
    exact ⟨Precedes.refl p, h⟩

/-- A fold that keeps one of two positions each time ends with one of them all,
and it keeps what each single choice keeps. -/
theorem foldl_choice {choose : Position → Position → Position}
    (before : Position → Position → Prop) (hrefl : ∀ p, before p p)
    (htrans : ∀ {p q r}, before p q → before q r → before p r)
    (hor : ∀ p q, choose p q = p ∨ choose p q = q)
    (hbefore : ∀ p q, before (choose p q) p ∧ before (choose p q) q)
    (p : Position) (rest : List Position) :
    rest.foldl choose p ∈ p :: rest ∧ ∀ q ∈ p :: rest, before (rest.foldl choose p) q := by
  induction rest generalizing p with
  | nil => simp [hrefl]
  | cons r rest ih =>
      obtain ⟨hmem, hle⟩ := ih (choose p r)
      have hchosen := hle (choose p r) (by simp)
      rw [List.foldl_cons]
      constructor
      · rcases List.mem_cons.1 hmem with h | h
        · rcases hor p r with hp | hp <;> rw [h, hp] <;> simp
        · simp [h]
      · intro q hq
        rcases List.mem_cons.1 hq with rfl | hq
        · exact htrans hchosen (hbefore q r).1
        · rcases List.mem_cons.1 hq with rfl | hq
          · exact htrans hchosen (hbefore p q).2
          · exact hle q (by simp [hq])

theorem foldl_min_spec (p : Position) (rest : List Position) :
    rest.foldl min p ∈ p :: rest ∧ ∀ q ∈ p :: rest, Precedes (rest.foldl min p) q :=
  foldl_choice Precedes Precedes.refl Precedes.trans min_eq_or min_precedes p rest

theorem foldl_max_spec (p : Position) (rest : List Position) :
    rest.foldl max p ∈ p :: rest ∧ ∀ q ∈ p :: rest, Precedes q (rest.foldl max p) :=
  foldl_choice (fun p q => Precedes q p) Precedes.refl
    (fun hpq hqr => hqr.trans hpq) max_eq_or precedes_max p rest

end Position

/-! ## The reported line -/

/-- The line that stands for some positions: the last of their lines, unless a
single one lies there and several on the line before. -/
def IsReportedLine (count : Nat → Nat) (line : Nat) : Prop :=
  ∃ last, IsGreatest {l | 0 < count l} last ∧
    (line = last ∧ ¬ (count last = 1 ∧ ∃ before, before + 1 = last ∧ 2 ≤ count before) ∨
      count last = 1 ∧ line + 1 = last ∧ 2 ≤ count line)

theorem mem_onLine {positions : List Position} {line : Nat} {p : Position} :
    p ∈ onLine positions line ↔ p ∈ positions ∧ p.line = line := by
  simp [onLine]

theorem le_lastLine {positions : List Position} {p : Position} (h : p ∈ positions) :
    p.line ≤ lastLine positions := by
  induction positions with
  | nil => simp at h
  | cons q rest ih =>
      rcases List.mem_cons.1 h with rfl | h
      · exact Nat.le_max_left _ _
      · exact (ih h).trans (Nat.le_max_right _ _)

theorem exists_line_eq_lastLine {positions : List Position} (h : positions ≠ []) :
    ∃ p ∈ positions, p.line = lastLine positions := by
  induction positions with
  | nil => exact absurd rfl h
  | cons q rest ih =>
      by_cases hrest : rest = []
      · exact ⟨q, by simp, by simp [hrest, lastLine]⟩
      · obtain ⟨p, hp, hline⟩ := ih hrest
        rcases Nat.le_total q.line (lastLine rest) with hle | hle
        · exact ⟨p, by simp [hp], by rw [hline]; exact (Nat.max_eq_right hle).symm⟩
        · exact ⟨q, by simp, (Nat.max_eq_left hle).symm⟩

theorem length_onLine_pos_iff {positions : List Position} {line : Nat} :
    0 < (onLine positions line).length ↔ ∃ p ∈ positions, p.line = line := by
  simp only [List.length_pos_iff_exists_mem, mem_onLine]

theorem isGreatest_lastLine {positions : List Position} (h : positions ≠ []) :
    IsGreatest {l | 0 < (onLine positions l).length} (lastLine positions) := by
  simp only [length_onLine_pos_iff]
  constructor
  · exact exists_line_eq_lastLine h
  · rintro l ⟨p, hp, rfl⟩
    exact le_lastLine hp

/-- The positions that stand for all are those of the reported line. -/
theorem reportedLine_eq_onLine {positions : List Position} (h : positions ≠ []) :
    ∃ line, IsReportedLine (fun l => (onLine positions l).length) line ∧
      reportedLine positions = onLine positions line := by
  have hlast := isGreatest_lastLine h
  unfold reportedLine
  generalize lastLine positions = last at hlast ⊢
  simp only
  split
  · next hone =>
    cases last with
    | zero =>
        refine ⟨0, ⟨0, hlast, Or.inl ⟨rfl, ?_⟩⟩, rfl⟩
        rintro ⟨-, before, hbefore, -⟩
        omega
    | succ before =>
        simp only
        split
        · next hfew =>
          refine ⟨before + 1, ⟨before + 1, hlast, Or.inl ⟨rfl, ?_⟩⟩, rfl⟩
          rintro ⟨-, other, hother, hmany⟩
          obtain rfl : other = before := by omega
          exact absurd hfew (Nat.not_le.2 hmany)
        · next hmany =>
          exact ⟨before, ⟨before + 1, hlast, Or.inr ⟨hone, rfl, Nat.lt_of_not_le hmany⟩⟩, rfl⟩
  · next hone => exact ⟨last, ⟨last, hlast, Or.inl ⟨rfl, fun hlone => hone hlone.1⟩⟩, rfl⟩

theorem IsReportedLine.count_pos {count : Nat → Nat} {line : Nat}
    (h : IsReportedLine count line) : 0 < count line := by
  obtain ⟨last, hlast, ⟨rfl, -⟩ | ⟨-, -, hmany⟩⟩ := h
  · exact hlast.1
  · omega

theorem IsReportedLine.exists_greatest {count : Nat → Nat} {line : Nat}
    (h : IsReportedLine count line) :
    ∃ last, IsGreatest {l | 0 < count l} last ∧ (line = last ∨ line + 1 = last) := by
  obtain ⟨last, hlast, ⟨rfl, -⟩ | ⟨-, hbefore, -⟩⟩ := h
  · exact ⟨line, hlast, Or.inl rfl⟩
  · exact ⟨last, hlast, Or.inr hbefore⟩

/-- Only one is picked by the rule that the last one stands for all unless it is single and
yields to several before it. -/
theorem eq_of_unless_lone {count : Nat → Nat} {last x y : Nat} (before : Nat → Prop)
    (hbefore : ∀ a b, before a → before b → a = b)
    (hx : x = last ∧ ¬ (count last = 1 ∧ ∃ a, before a ∧ 2 ≤ count a) ∨
      count last = 1 ∧ before x ∧ 2 ≤ count x)
    (hy : y = last ∧ ¬ (count last = 1 ∧ ∃ a, before a ∧ 2 ≤ count a) ∨
      count last = 1 ∧ before y ∧ 2 ≤ count y) : x = y := by
  rcases hx with ⟨rfl, hstays⟩ | ⟨hone, hx, hmany⟩
  · rcases hy with ⟨rfl, -⟩ | ⟨hone, hy, hmany⟩
    · rfl
    · exact absurd ⟨hone, y, hy, hmany⟩ hstays
  · rcases hy with ⟨rfl, hstays⟩ | ⟨-, hy, -⟩
    · exact absurd ⟨hone, x, hx, hmany⟩ hstays
    · exact hbefore x y hx hy

theorem IsReportedLine.unique {count : Nat → Nat} {line other : Nat}
    (h : IsReportedLine count line) (hother : IsReportedLine count other) : line = other := by
  obtain ⟨last, hlast, hline⟩ := h
  obtain ⟨last', hlast', hother⟩ := hother
  obtain rfl := hlast.unique hlast'
  exact eq_of_unless_lone (fun l => l + 1 = last) (fun a b ha hb => by omega) hline hother

/-- What the ends of the reported span have to do with the positions. -/
structure SpansLine (positions : List Position) (line : Nat) (first last : Position) : Prop where
  reported : IsReportedLine (fun l => (onLine positions l).length) line
  first_mem : first ∈ onLine positions line
  last_mem : last ∈ onLine positions line
  first_precedes : ∀ p ∈ onLine positions line, first.Precedes p
  precedes_last : ∀ p ∈ onLine positions line, p.Precedes last

theorem exists_lineEnds {positions : List Position} (h : positions ≠ []) :
    ∃ line first last, lineEnds positions = some (first, last) ∧
      SpansLine positions line first last := by
  obtain ⟨line, hline, hchosen⟩ := reportedLine_eq_onLine h
  obtain ⟨p, rest, hcons⟩ := List.exists_cons_of_length_pos hline.count_pos
  have hmin := Position.foldl_min_spec p rest
  have hmax := Position.foldl_max_spec p rest
  rw [← hcons] at hmin hmax
  refine ⟨line, _, _, ?_, hline, hmin.1, hmax.1, hmin.2, hmax.2⟩
  rw [lineEnds, hchosen, hcons]

/-! ## One span, in whatever order the positions are met -/

section Spans

variable {positions others : List Position} {line line' : Nat} {first first' last last' : Position}

theorem SpansLine.unique (h : SpansLine positions line first last)
    (hother : SpansLine positions line' first' last') : first = first' ∧ last = last' := by
  obtain rfl := h.reported.unique hother.reported
  have hfirsts : first = first' :=
    (h.first_precedes first' hother.first_mem).antisymm (hother.first_precedes first h.first_mem)
  have hlasts : last = last' :=
    (hother.precedes_last last h.last_mem).antisymm (h.precedes_last last' hother.last_mem)
  exact ⟨hfirsts, hlasts⟩

theorem SpansLine.of_perm (h : SpansLine positions line first last)
    (hperm : positions.Perm others) : SpansLine others line first last := by
  have honLine (l : Nat) : (onLine positions l).Perm (onLine others l) := hperm.filter _
  have hcount : (fun l => (onLine positions l).length) = fun l => (onLine others l).length :=
    funext fun l => (honLine l).length_eq
  have hmem {p : Position} : p ∈ onLine positions line ↔ p ∈ onLine others line :=
    (honLine line).mem_iff
  exact {
    reported := hcount ▸ h.reported
    first_mem := hmem.1 h.first_mem
    last_mem := hmem.1 h.last_mem
    first_precedes := fun p hp => h.first_precedes p (hmem.2 hp)
    precedes_last := fun p hp => h.precedes_last p (hmem.2 hp) }

/-- What two ends have to do with the positions determines them. -/
theorem lineEnds_eq_some_iff :
    lineEnds positions = some (first, last) ↔ ∃ line, SpansLine positions line first last := by
  constructor
  · intro h
    have hne : positions ≠ [] := by
      rintro rfl
      cases h
    obtain ⟨line, first', last', hends, hspans⟩ := exists_lineEnds hne
    obtain ⟨rfl, rfl⟩ := Prod.mk.inj (Option.some.inj (h.symm.trans hends))
    exact ⟨line, hspans⟩
  · rintro ⟨line, hspans⟩
    have hne : positions ≠ [] := List.ne_nil_of_mem (mem_onLine.1 hspans.first_mem).1
    obtain ⟨line', first', last', hends, hspans'⟩ := exists_lineEnds hne
    obtain ⟨rfl, rfl⟩ := hspans.unique hspans'
    exact hends

theorem lineEnds_perm (h : positions.Perm others) : lineEnds positions = lineEnds others := by
  by_cases hne : positions = []
  · subst hne
    rw [h.nil_eq]
  · obtain ⟨line, first, last, hends, hspans⟩ := exists_lineEnds hne
    rw [hends, lineEnds_eq_some_iff.2 ⟨line, hspans.of_perm h⟩]

theorem lineSpan_of_lineEnds (h : lineEnds positions = some (first, last)) :
    lineSpan positions = some (first, last.next) := by
  rw [lineSpan, h]
  rfl

theorem exists_of_lineSpan {stop : Position} (h : lineSpan positions = some (first, stop)) :
    ∃ line last, SpansLine positions line first last ∧ stop = last.next := by
  obtain ⟨⟨first', last⟩, hends, hspan⟩ := Option.map_eq_some_iff.1 h
  obtain ⟨rfl, rfl⟩ := Prod.mk.inj hspan
  obtain ⟨line, hspans⟩ := lineEnds_eq_some_iff.1 hends
  exact ⟨line, last, hspans, rfl⟩

theorem length_onLine (positions : List Position) (line : Nat) :
    (onLine positions line).length = positions.countP (·.line = line) :=
  List.countP_eq_length_filter.symm

/-! ## Just after the last position -/

namespace Position

variable {p q : Position} {overflow : Overflow}

/-- A word holds both counts of the next position. -/
def HasNext (p : Position) : Prop := p.offset + 1 < wordLimit ∧ p.column + 1 < wordLimit

instance (p : Position) : Decidable p.HasNext := inferInstanceAs (Decidable (_ ∧ _))

theorem step_eq_ok_iff : p.step overflow = .ok q ↔ overflow.add p.offset 1 = .ok q.offset ∧
    p.line = q.line ∧ overflow.add p.column 1 = .ok q.column := by
  unfold step
  simp only [Results.bind_eq_ok, Results.pure_eq_ok]
  constructor
  · rintro ⟨offset, hoffset, column, hcolumn, rfl⟩
    exact ⟨hoffset, rfl, hcolumn⟩
  · rintro ⟨hoffset, hline, hcolumn⟩
    exact ⟨_, hoffset, _, hcolumn, by rw [hline]⟩

theorem step_eq_next_iff : p.step overflow = .ok p.next ↔ p.HasNext := by
  rw [step_eq_ok_iff]
  change overflow.add p.offset 1 = .ok (p.offset + 1) ∧ _ ∧
    overflow.add p.column 1 = .ok (p.column + 1) ↔ _
  rw [Overflow.add_eq_ok_iff, Overflow.add_eq_ok_iff, HasNext]
  exact and_congr_right fun _ => ⟨And.right, fun hcolumn => ⟨rfl, hcolumn⟩⟩

end Position

theorem spanOf_of_lineEnds (h : lineEnds positions = some (first, last)) (overflow : Overflow) :
    spanOf overflow positions = (last.step overflow).map fun stop => some (first, stop) := by
  rw [spanOf, h]
  rfl

theorem spanOf_eq_next_iff {overflow : Overflow} (h : lineEnds positions = some (first, last)) :
    spanOf overflow positions = .ok (some (first, last.next)) ↔ last.HasNext := by
  rw [spanOf_of_lineEnds h, Results.map_eq_ok, ← Position.step_eq_next_iff]
  constructor
  · rintro ⟨stop, hstop, hspan⟩
    obtain ⟨-, rfl⟩ := Prod.mk.inj (Option.some.inj hspan)
    exact hstop
  · exact fun hstep => ⟨last.next, hstep, rfl⟩

/-- Positions out of order, one of them met twice, with a single one on the last line. -/
def scattered : List Position := [⟨5, 0, 5⟩, ⟨8, 1, 0⟩, ⟨3, 0, 3⟩, ⟨5, 0, 5⟩]

/-- The position that is farthest on a line, as far as words count. -/
def farthest : Position := ⟨wordLimit - 1, 0, 0⟩

end Spans

end LatexOrigins
