import LatexOrigins.Origin.Order

/-!
# Origins are ordered totally

Pointers are compared key by key, and origins pointer by pointer, each time as natural
numbers. So the order of origins is transitive and total, and two origins stand on a level
in it exactly if they count as equal.
-/

namespace LatexOrigins

instance : Std.TransOrd Pointer :=
  inferInstanceAs <| Std.TransCmp <| compareLex (compareOn fun p : Pointer => p.key.source) <|
    compareLex (compareOn fun p => p.key.file) <|
      compareLex (compareOn fun p => p.key.offset) (compareOn fun p => p.key.text)

instance : Std.LawfulBEqOrd Pointer where
  compare_eq_iff_beq {p q} := by
    have hbeq : (p == q) = true ↔ p.key = q.key := decide_eq_true_iff
    have hcompare : compare p q = p.compare q := rfl
    rw [hbeq, hcompare, Pointer.compare, Ordering.then_eq_eq, Ordering.then_eq_eq,
      Ordering.then_eq_eq, Pointer.Key.mk.injEq]
    simp only [Nat.compare_eq_eq]

instance : Std.TransOrd Origin :=
  inferInstanceAs <| Std.TransCmp <|
    compareLex (compareOn fun o : Origin => o.start) (compareOn fun o => o.stop)

instance : Std.LawfulBEqOrd Origin where
  compare_eq_iff_beq {a b} := by
    have hbeq : (a == b) = true ↔ (a.start == b.start) = true ∧ (a.stop == b.stop) = true :=
      Bool.and_eq_true_iff
    have hcompare : compare a b = (compare a.start b.start).then (compare a.stop b.stop) := rfl
    rw [hbeq, hcompare, Ordering.then_eq_eq, Std.LawfulBEqCmp.compare_eq_iff_beq,
      Std.LawfulBEqCmp.compare_eq_iff_beq]

namespace Origin

variable {a b c : Origin}

theorem compare_swap (a b : Origin) : b.compare a = (a.compare b).swap :=
  Std.OrientedOrd.eq_swap (α := Origin)

theorem compare_eq_eq_iff : a.compare b = .eq ↔ (a == b) = true :=
  Std.LawfulBEqOrd.compare_eq_iff_beq (α := Origin)

theorem le_trans (hab : a.le b = true) (hbc : b.le c = true) : a.le c = true :=
  Std.TransOrd.isLE_trans (α := Origin) hab hbc

theorem le_total (a b : Origin) : (a.le b || b.le a) = true := by
  rw [le, le, compare_swap a b]
  cases a.compare b <;> rfl

theorem le_refl (a : Origin) : a.le a = true := by
  have h := le_total a a
  rwa [Bool.or_self] at h

theorem beq_iff_le : (a == b) = true ↔ a.le b = true ∧ b.le a = true := by
  rw [← compare_eq_eq_iff, le, le, compare_swap a b]
  cases a.compare b <;> decide

end Origin

end LatexOrigins
