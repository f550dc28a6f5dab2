import LatexOrigins.Proofs.Document.Answer

/-!
# The ranges that origins are traced from

An origin that a query answered with was traced from a flat range: from the range between
the addresses, or from the one that a range of the plain text stems from, to which the
positions in the plain text were attached. Some byte of that range comes from a file.
-/

namespace LatexOrigins.Document

variable {d : Document} {start stop : Address} {b e : Nat} {o : Origin}

theorem exists_range_of_originOfSource (h : d.originOfSource start stop = .ok o) :
    ∃ b e, d.source.flat.Names start b ∧ d.source.flat.Names stop e ∧ b < e ∧
      e ≤ d.source.flat.size ∧ d.originOfRange b e = .ok o := by
  obtain ⟨b, e, x, y, hb, he, hlt, ⟨rfl, rfl⟩, -⟩ :=
    (d.answered_originOfSource (not_overruns_of_originOfSource h)).ok_iff.1 ⟨o, h⟩
  rw [originOfSource_of_names hb he, if_pos hlt] at h
  exact ⟨_, _, hb, he, hlt, he.le_size, h⟩

theorem exists_range_of_originOfText (h : d.originOfText start stop = .ok o) :
    ∃ p q x y found, d.plain.lined.find? start = some p ∧ d.plain.lined.find? stop = some q ∧
      x < y ∧ y ≤ d.source.flat.size ∧ d.originOfRange x y = .ok found ∧
      o = found.withText p q := by
  obtain ⟨b, e, -, -, hb, he, hlt, -⟩ :=
    (d.answered_originOfText (not_overruns_of_originOfText h)).ok_iff.1 ⟨o, h⟩
  obtain ⟨p, hp, rfl⟩ := hb.exists_find?
  obtain ⟨q, hq, rfl⟩ := he.exists_find?
  obtain ⟨x, last, -, -, hle, hinside, hanswer⟩ := originOfText_of_find? hp hq hlt
  rw [hanswer] at h
  obtain ⟨found, hrange, rfl⟩ := Results.map_eq_ok.1 h
  exact ⟨p, q, x, last + 1, found, hp, hq, Nat.lt_succ_of_le hle, hinside, hrange, rfl⟩

theorem touches_of_originOfRange (hlt : b < e) (hle : e ≤ d.source.flat.size)
    (h : d.originOfRange b e = .ok o) : d.source.Touches (d.cutStart b e) e := by
  by_contra hnone
  rw [d.originOfRange_eq_noOrigin hlt hle hnone] at h
  cases h

theorem traces_of_originOfRange (hlt : b < e) (hle : e ≤ d.source.flat.size)
    (h : d.originOfRange b e = .ok o) : d.Traces (d.cutStart b e) e o := by
  obtain ⟨found, hfound, htraces⟩ :=
    d.exists_originOfRange hlt hle (touches_of_originOfRange hlt hle h)
  obtain rfl : found = o := Except.ok.inj (hfound.symm.trans h)
  exact htraces

end LatexOrigins.Document
