import LatexOrigins.Proofs.Document.Copied
import LatexOrigins.Proofs.Document.SourceSpan

/-!
# Stable resolution

A file that has several bytes of a range keeps standing for it when the range changes around
these bytes, as long as no deeper file has more bytes of the new range than it had of the old
one. So bytes of shallower files, and bytes of no file, can be put around the range, and the
range can be cut down to the source span of its origin: the same places are reported.
-/

namespace LatexOrigins

/-! ## The reported file -/

section Shares

variable {share share' : Nat → Nat} {file other : Nat}

theorem IsReportedFile.unique (h : IsReportedFile share file)
    (hother : IsReportedFile share other) : file = other := by
  obtain ⟨deepest, hdeepest, hfile⟩ := h
  obtain ⟨deepest', hdeepest', hother⟩ := hother
  obtain rfl := hdeepest.unique hdeepest'
  exact eq_of_unless_lone (IsGreatest {f | 0 < share f ∧ f < deepest})
    (fun a b ha hb => ha.unique hb) hfile hother

/-- A file with several bytes still stands for the bytes when its share stays and those of
deeper files do not grow. -/
theorem IsReportedFile.of_le (h : IsReportedFile share file) (hmany : 2 ≤ share file)
    (hsame : share' file = share file) (hdeeper : ∀ f, file < f → share' f ≤ share f) :
    IsReportedFile share' file := by
  obtain ⟨deepest, hdeepest, ⟨rfl, -⟩ | ⟨hone, hbelow, -⟩⟩ := h
  · have hgreatest : IsGreatest {f | 0 < share' f} file := by
      refine ⟨by rw [Set.mem_ofPred_eq, hsame]; omega, fun f hf => ?_⟩
      by_contra hlt
      have hshare := hdeeper f (Nat.lt_of_not_le hlt)
      exact hlt (hdeepest.2 (Nat.lt_of_lt_of_le hf hshare))
    exact ⟨file, hgreatest, Or.inl ⟨rfl, fun hlone => by omega⟩⟩
  · have hlt : file < deepest := hbelow.1.2
    have hbetween : ∀ f, 0 < share' f → f ≠ deepest → f ≤ file := by
      intro f hf hne
      by_contra hgt
      have hshare := Nat.lt_of_lt_of_le hf (hdeeper f (Nat.lt_of_not_le hgt))
      exact hgt (hbelow.2 ⟨hshare, Nat.lt_of_le_of_ne (hdeepest.2 hshare) hne⟩)
    have hpos : 0 < share' file := by omega
    by_cases hzero : share' deepest = 0
    · -- The single byte of the deepest file is gone, and the file is the deepest one itself.
      have hgreatest : IsGreatest {f | 0 < share' f} file := by
        refine ⟨hpos, fun f hf => hbetween f hf ?_⟩
        rintro rfl
        exact absurd hzero (Nat.ne_of_gt hf)
      exact ⟨file, hgreatest, Or.inl ⟨rfl, fun hlone => by omega⟩⟩
    · have hlone : share' deepest = 1 := by
        have hshare := hdeeper deepest hlt
        omega
      refine ⟨deepest, ⟨?_, fun f hf => ?_⟩, Or.inr ⟨hlone, ⟨⟨hpos, hlt⟩, ?_⟩, by omega⟩⟩
      · exact Nat.pos_of_ne_zero hzero
      · by_cases hne : f = deepest
        · exact Nat.le_of_eq hne
        · exact Nat.le_trans (hbetween f hf hne) hlt.le
      · rintro f ⟨hf, hfdeepest⟩
        exact hbetween f hf (Nat.ne_of_lt hfdeepest)

end Shares

namespace Source

variable {s : Source} {b e b' e' file : Nat} {first last : FilePlace}

theorem reportedFile_eq_some_iff {bytes : List Provenance} :
    reportedFile bytes = some file ↔ IsReportedFile (share bytes) file := by
  refine ⟨isReportedFile_of_reportedFile, fun h => ?_⟩
  obtain ⟨origin, horigin, -⟩ := List.countP_pos_iff.1 h.share_pos
  obtain ⟨other, hother⟩ :=
    Option.ne_none_iff_exists'.1 (mt reportedFile_eq_none_iff.1 (List.ne_nil_of_mem horigin))
  rw [hother, h.unique (isReportedFile_of_reportedFile hother)]

/-! ## Parts of a range -/

theorem provenances_append (s : Source) {a b c : Nat} (hab : a ≤ b) (hbc : b ≤ c) :
    s.provenances a b ++ s.provenances b c = s.provenances a c := by
  have hwhole : c - a = (b - a) + (c - b) := by omega
  rw [provenances, provenances, provenances, hwhole, ← List.range'_append, Nat.one_mul,
    Nat.add_sub_cancel' hab, List.filterMap_append]

theorem share_append (bytes others : List Provenance) (file : Nat) :
    share (bytes ++ others) file = share bytes file + share others file :=
  List.countP_append

theorem share_eq_length (bytes : List Provenance) (file : Nat) :
    share bytes file = (bytes.filter (·.file = file)).length :=
  List.countP_eq_length_filter

theorem filter_provenances_eq_nil
    (h : ∀ k origin, b ≤ k → k < e → s.provenance? k = some origin → origin.file ≠ file) :
    (s.provenances b e).filter (·.file = file) = [] := by
  rw [List.filter_eq_nil_iff]
  intro origin horigin hfile
  obtain ⟨k, ⟨hbk, hke⟩, hk⟩ := mem_provenances.1 horigin
  exact h k origin hbk hke hk (of_decide_eq_true hfile)

/-! ## The reported span -/

theorem fileSpan_eq (hlt : b < e) (hle : e ≤ s.flat.size)
    (hreported : reportedFile (s.provenances b e) = some file) {copy : SourceFile}
    (hcopy : s.file? file = some copy) {p q : Position}
    (hspan : lineSpan (s.positionsIn b e file copy) = some (p, q)) :
    s.fileSpan b e = .ok (some (⟨copy.path, file, p⟩, ⟨copy.path, file, q⟩)) := by
  rw [fileSpan, if_neg (Nat.not_le.2 hlt), if_neg (Nat.not_lt.2 hle)]
  simp only [hreported, hcopy, mapM_positionAt hcopy, Results.mapError_ok, Results.ok_bind, hspan]

/-- A span that was found is that of the file that stands for the range. -/
theorem exists_of_fileSpan (h : s.fileSpan b e = .ok (some (first, last))) :
    b < e ∧ e ≤ s.flat.size ∧ reportedFile (s.provenances b e) = some first.file ∧
      ∃ copy p q, s.file? first.file = some copy ∧
        lineSpan (s.positionsIn b e first.file copy) = some (p, q) ∧
        first = ⟨copy.path, first.file, p⟩ ∧ last = ⟨copy.path, first.file, q⟩ := by
  by_cases hle : e ≤ b
  · rw [fileSpan, if_pos hle] at h
    cases h
  by_cases hsize : s.flat.size < e
  · rw [fileSpan, if_neg hle, if_pos hsize] at h
    cases h
  rw [fileSpan, if_neg hle, if_neg hsize] at h
  cases hreported : reportedFile (s.provenances b e) with
  | none =>
      simp only [hreported] at h
      cases h
  | some file =>
      have hshare := (reportedFile_eq_some_iff.1 hreported).share_pos
      obtain ⟨origin, horigin, hfile⟩ := List.countP_pos_iff.1 hshare
      obtain rfl : origin.file = file := of_decide_eq_true hfile
      obtain ⟨k, -, hk⟩ := mem_provenances.1 horigin
      obtain ⟨copy, hcopy, -⟩ := file?_of_provenance? hk
      simp only [hreported, hcopy, mapM_positionAt hcopy, Results.mapError_ok,
        Results.ok_bind] at h
      cases hspan : lineSpan (s.positionsIn b e origin.file copy) with
      | none =>
          simp only [hspan] at h
          cases h
      | some span =>
          simp only [hspan] at h
          obtain ⟨rfl, rfl⟩ := Prod.mk.inj (Option.some.inj (Except.ok.inj h))
          exact ⟨Nat.lt_of_not_le hle, Nat.le_of_not_lt hsize, rfl, copy, span.1, span.2, hcopy,
            hspan, rfl, rfl⟩

/-- Another range has the same span, if the file that stands for the range has the same
bytes of it, which are several, and deeper files have no more than before. -/
theorem fileSpan_congr (h : s.fileSpan b e = .ok (some (first, last)))
    (hmany : 2 ≤ (s.offsetsOf b e first.file).card) (hlt : b' < e') (hle : e' ≤ s.flat.size)
    (hsame : (s.provenances b' e').filter (·.file = first.file) =
      (s.provenances b e).filter (·.file = first.file))
    (hdeeper : ∀ f, first.file < f →
      share (s.provenances b' e') f ≤ share (s.provenances b e) f) :
    s.fileSpan b' e' = .ok (some (first, last)) := by
  obtain ⟨-, -, hreported, copy, p, q, hcopy, hspan, hfirst, hlast⟩ := exists_of_fileSpan h
  rw [← share_provenances] at hmany
  have hshare : share (s.provenances b' e') first.file = share (s.provenances b e) first.file := by
    rw [share_eq_length, share_eq_length, hsame]
  have hreported' : reportedFile (s.provenances b' e') = some first.file :=
    reportedFile_eq_some_iff.2
      ((reportedFile_eq_some_iff.1 hreported).of_le hmany hshare hdeeper)
  have hpositions : s.positionsIn b' e' first.file copy = s.positionsIn b e first.file copy := by
    rw [positionsIn, positionsIn, hsame]
  rw [← hpositions] at hspan
  rw [fileSpan_eq hlt hle hreported' hcopy hspan, ← hfirst, ← hlast]

theorem fileSpan_widen (h : s.fileSpan b e = .ok (some (first, last)))
    (hmany : 2 ≤ (s.offsetsOf b e first.file).card) (hb : b' ≤ b) (he : e ≤ e')
    (hle : e' ≤ s.flat.size)
    (hshallow : ∀ k origin, b' ≤ k ∧ k < b ∨ e ≤ k ∧ k < e' → s.provenance? k = some origin →
      origin.file < first.file) : s.fileSpan b' e' = .ok (some (first, last)) := by
  have hlt := (exists_of_fileSpan h).1
  have hbytes : s.provenances b' e' =
      s.provenances b' b ++ (s.provenances b e ++ s.provenances e e') := by
    rw [s.provenances_append hlt.le he, s.provenances_append hb (by omega)]
  have hbefore {f : Nat} (hf : first.file ≤ f) : (s.provenances b' b).filter (·.file = f) = [] :=
    filter_provenances_eq_nil fun k origin hk hkb hprov hfile => by
      have := hshallow k origin (Or.inl ⟨hk, hkb⟩) hprov
      omega
  have hbehind {f : Nat} (hf : first.file ≤ f) : (s.provenances e e').filter (·.file = f) = [] :=
    filter_provenances_eq_nil fun k origin hk hke hprov hfile => by
      have := hshallow k origin (Or.inr ⟨hk, hke⟩) hprov
      omega
  refine fileSpan_congr h hmany (by omega) hle ?_ fun f hf => ?_
  · rw [hbytes, List.filter_append, List.filter_append, hbefore (Nat.le_refl _),
      hbehind (Nat.le_refl _), List.nil_append, List.append_nil]
  · rw [hbytes, share_append, share_append, share_eq_length (s.provenances b' b),
      share_eq_length (s.provenances e e'), hbefore hf.le, hbehind hf.le]
    simp

theorem fileSpan_cut (h : s.fileSpan b e = .ok (some (first, last)))
    (hmany : 2 ≤ (s.offsetsOf b e first.file).card) (hlt : b < e') (he : e' ≤ e)
    (hother : ∀ k origin, e' ≤ k → k < e → s.provenance? k = some origin →
      origin.file ≠ first.file) : s.fileSpan b e' = .ok (some (first, last)) := by
  obtain ⟨-, hle, -⟩ := exists_of_fileSpan h
  have hbytes := s.provenances_append hlt.le he
  refine fileSpan_congr h hmany hlt (by omega) ?_ fun f _ => ?_
  · rw [← hbytes, List.filter_append, filter_provenances_eq_nil hother, List.append_nil]
  · rw [← hbytes, share_append]
    exact Nat.le_add_right _ _

end Source

/-! ## Asking for a source span -/

namespace Document

theorem pullBack_le (s : Source) (file start count : Nat) :
    pullBack s file start count ≤ start + 1 + count := by
  induction count with
  | zero => exact Nat.le_refl _
  | succ count ih =>
      rw [pullBack]
      split
      · exact Nat.le_refl _
      · exact Nat.le_succ_of_le ih

theorem pullBack_of_comesFrom {s : Source} {file b e : Nat} (hlt : b < e)
    (h : s.ComesFrom file (e - 1)) : pullBack s file b (e - b - 1) = e := by
  cases hcount : e - b - 1 with
  | zero =>
      rw [pullBack]
      omega
  | succ count =>
      have hlast : b + 1 + count = e - 1 := by omega
      rw [Source.ComesFrom] at h
      rw [pullBack, hlast, if_pos h]
      omega

variable {d : Document} {b e : Nat} {o : Origin} {first last : FilePlace}

theorem originOfRange_of_fileSpan (hlt : b < e) (hle : e ≤ d.source.flat.size)
    (h : d.source.fileSpan (d.cutStart b e) e = .ok (some (first, last))) :
    d.originOfRange b e = Origin.ofPointers
      ⟨first, d.source.flat.position (d.cutStart b e), none⟩
      ⟨last, d.source.flat.position
        (pullBack d.source first.file (d.cutStart b e) (e - d.cutStart b e - 1)), none⟩ := by
  have hcut := d.cutStart_lt hlt
  have hback := pullBack_le d.source first.file (d.cutStart b e) (e - d.cutStart b e - 1)
  have hstart := LinedText.positionAt_eq_ok (t := d.source.flat) (hcut.le.trans hle)
  have hinside : pullBack d.source first.file (d.cutStart b e) (e - d.cutStart b e - 1) ≤
      d.source.flat.size := by omega
  have hstop := LinedText.positionAt_eq_ok hinside
  unfold originOfRange
  rw [if_neg (Nat.not_lt.2 hlt.le)]
  simp only [cutStart_eq, h, Results.ok_bind, hstart, hstop, Results.mapError_ok]

theorem eq_of_ofPointers {p q : Pointer} (h : Origin.ofPointers p q = .ok o) :
    o.start = p ∧ o.stop = q := by
  unfold Origin.ofPointers at h
  split at h
  · split at h
    · split at h
      · obtain rfl := Except.ok.inj h
        exact ⟨rfl, rfl⟩
      · cases h
    · cases h
  · cases h

/-- If several bytes of a range come from the file of its origin, the source span of the
origin has the same origin. -/
theorem originOfRange_sourceSpan (hlt : b < e) (hle : e ≤ d.source.flat.size)
    (h : d.originOfRange b e = .ok o)
    (hmany : 2 ≤ (d.source.offsetsOf (d.cutStart b e) e o.fileId).card) :
    o.sourceSpan.1 < o.sourceSpan.2 ∧ o.sourceSpan.2 ≤ e ∧
      d.originOfRange o.sourceSpan.1 o.sourceSpan.2 = .ok o := by
  have htouches := touches_of_originOfRange hlt hle h
  have hcut := d.cutStart_lt hlt
  obtain ⟨first, last, hspan, hspans⟩ := Source.exists_fileSpan hcut hle htouches
  have hpointers := originOfRange_of_fileSpan hlt hle hspan
  obtain ⟨hstart, hstop⟩ := eq_of_ofPointers (hpointers.symm.trans h)
  have hfile : o.fileId = first.file := by rw [Origin.fileId, hstart]
  rw [hfile] at hmany
  have hrange : d.cutStart b e + 1 + (e - d.cutStart b e - 1) = e := by omega
  have hsome : (d.source.offsetsOf (d.cutStart b e)
      (d.cutStart b e + 1 + (e - d.cutStart b e - 1)) first.file).Nonempty := by
    rw [hrange, ← Finset.card_pos]
    omega
  obtain ⟨final, hfinal, hback⟩ := isGreatest_pullBack hsome
  rw [hrange] at hfinal
  obtain ⟨hinside, hcomes⟩ := Source.mem_offsetsOf.1 hfinal.1
  have hsource : o.sourceSpan = (d.cutStart b e, final + 1) := by
    rw [Origin.sourceSpan, hstart, hstop, hback]
    rfl
  have hshort : d.cutStart (d.cutStart b e) (final + 1) = d.cutStart b e := by
    unfold cutStart
    omega
  -- Behind the last byte of the file nothing comes from it.
  have hagain : d.source.fileSpan (d.cutStart b e) (final + 1) = .ok (some (first, last)) := by
    refine Source.fileSpan_cut hspan hmany (by omega) (by omega) ?_
    intro k origin hk hke hprov horigin
    have hbehind := hfinal.2 (Source.mem_offsetsOf.2 ⟨by omega, origin, hprov, horigin⟩)
    omega
  rw [← hshort] at hagain
  refine ⟨o.source_lt, by rw [hsource]; omega, ?_⟩
  rw [hsource]
  simp only
  rw [originOfRange_of_fileSpan (by omega) (by omega) hagain, hshort,
    pullBack_of_comesFrom (by omega) (Source.comesFrom_iff.2 hcomes), ← hback, ← hpointers]
  exact h

/-- The span of a range stays when bytes of shallower files or of no file are put around it,
if the file that stands for the range has several bytes of it. And if several bytes of the
range that an origin was traced from come from the file of the origin, its source span has
the very same origin. -/
theorem resolution_stable (s : Source) (d : Document) :
    (∀ b e b' e' first last, s.fileSpan b e = .ok (some (first, last)) →
      2 ≤ (s.offsetsOf b e first.file).card → b' ≤ b → e ≤ e' → e' ≤ s.flat.size →
      (∀ k origin, b' ≤ k ∧ k < b ∨ e ≤ k ∧ k < e' → s.provenance? k = some origin →
        origin.file < first.file) →
      s.fileSpan b' e' = .ok (some (first, last))) ∧
    ∀ start stop b e o, d.source.flat.Names start b → d.source.flat.Names stop e →
      d.originOfSource start stop = .ok o →
      2 ≤ (d.source.offsetsOf (max b (e - d.spanLimit)) e o.fileId).card →
      d.originOfSource (.offset o.sourceSpan.1) (.offset o.sourceSpan.2) = .ok o := by
  refine ⟨fun b e b' e' first last h hmany hb he hle hshallow =>
    Source.fileSpan_widen h hmany hb he hle hshallow, ?_⟩
  intro start stop b e o hb he h hmany
  obtain ⟨b', e', x, y, hb', he', hlt, ⟨rfl, rfl⟩, -⟩ :=
    (d.answered_originOfSource (not_overruns_of_originOfSource h)).ok_iff.1 ⟨o, h⟩
  obtain rfl := hb.unique hb'
  obtain rfl := he.unique he'
  obtain ⟨p, q, hrange, rfl, rfl⟩ := locateRange_eq_ok hb he hlt
  rw [originOfSource, hrange, Results.ok_bind] at h
  obtain ⟨hspan, hstop, hagain⟩ := originOfRange_sourceSpan hlt he.le_size h hmany
  rw [d.originOfSource_offsets hspan (hstop.trans he.le_size)]
  exact hagain

/-- Around the included bytes `XYZ` the bytes of the main file do not count, and the range
`abc⏎X` is cut to `abc⏎`, in which the single deeper byte is missing. -/
theorem resolution_stable_inlined :
    (∃ first last, inlined.source.fileSpan 2 5 = .ok (some (first, last)) ∧
      2 ≤ (inlined.source.offsetsOf 2 5 first.file).card ∧
      (∀ k origin, 0 ≤ k ∧ k < 2 ∨ 5 ≤ k ∧ k < 7 → inlined.source.provenance? k = some origin →
        origin.file < first.file) ∧
      inlined.source.fileSpan 0 7 = .ok (some (first, last))) ∧
    ∃ o, loneBytes.originOfSource (.lineColumn 0 0) (.offset 5) = .ok o ∧
      2 ≤ (loneBytes.source.offsetsOf (max 0 (5 - loneBytes.spanLimit)) 5 o.fileId).card ∧
      o.sourceSpan = (0, 4) ∧
      loneBytes.originOfSource (.offset o.sourceSpan.1) (.offset o.sourceSpan.2) = .ok o := by
  obtain ⟨hwiden, hcut⟩ := resolution_stable inlined.source loneBytes
  have hspan : inlined.source.fileSpan 2 5 = .ok (some (_, _)) := rfl
  have hshallow : ∀ k origin, 0 ≤ k ∧ k < 2 ∨ 5 ≤ k ∧ k < 7 →
      inlined.source.provenance? k = some origin → origin.file < 1 := by
    intro k origin hk hprov
    have hall : ∀ k < 7, k < 2 ∨ 5 ≤ k → ∀ origin ∈ inlined.source.provenance? k,
        origin.file < 1 := by
      decide
    exact hall k (by omega) (by omega) origin hprov
  have horigin : loneBytes.originOfSource (.lineColumn 0 0) (.offset 5) = .ok _ := rfl
  have hstart : loneBytes.source.flat.Names (.lineColumn 0 0) 0 :=
    .lineColumn (by decide) (by decide)
  refine ⟨⟨_, _, hspan, by decide, hshallow, ?_⟩, _, horigin, by decide, rfl, ?_⟩
  · exact hwiden 2 5 0 7 _ _ hspan (by decide) (by decide) (by decide) (by decide) hshallow
  · exact hcut (.lineColumn 0 0) (.offset 5) 0 5 _ hstart (.offset (by decide)) horigin (by decide)

end Document

end LatexOrigins
