import LatexOrigins.Document.Basic
import LatexOrigins.Proofs.Document.Share
import LatexOrigins.Proofs.Results
import LatexOrigins.Proofs.Text.LineTable

/-!
# Tracing a flat range

What the origin of a flat range has to do with the bytes of the range. A range
is cut to its last bytes first; the file and the line that stand for what is
left are those that the rules on single bytes name, and the origin encloses
exactly the bytes of that line, in the file and up to the last of them in the
flat source. Tracing fails only where no byte comes from a file.
-/

namespace LatexOrigins

namespace Source

theorem file?_of_provenance? {s : Source} {k : Nat} {origin : Provenance}
    (h : s.provenance? k = some origin) :
    ∃ file, s.file? origin.file = some file ∧ origin.offset < file.lined.size := by
  have hmem : some origin ∈ s.origins := by
    rw [provenance?, Option.join_eq_some_iff] at h
    exact Array.mem_of_getElem? h
  have hholds := s.holds origin hmem
  unfold SourceFile.holds at hholds
  split at hholds
  · next file hfile => exact ⟨file, hfile, by simpa using hholds⟩
  · simp at hholds

/-- What the two ends of a span in a file have to do with a flat range. -/
structure FileSpans (s : Source) (start stop : Nat) (first last : FilePlace) : Prop where
  file : IsReportedFile (fun f => (s.offsetsOf start stop f).card) first.file
  place : ∃ file, s.file? first.file = some file ∧ first.path = file.path
  same_file : last.file = first.file
  same_path : last.path = first.path
  line : IsReportedLine (fun l => (s.offsetsOn start stop first.file l).card)
    first.position.line
  same_line : last.position.line = first.position.line
  first_touched : ∃ k ∈ s.offsetsOn start stop first.file first.position.line,
    s.provenance? k = some ⟨first.file, first.position.offset⟩
  last_touched : ∃ k ∈ s.offsetsOn start stop first.file first.position.line,
    ∃ x, s.provenance? k = some ⟨first.file, x⟩ ∧ last.position.offset = x + 1
  encloses : ∀ k ∈ s.offsetsOn start stop first.file first.position.line,
    ∀ x, s.provenance? k = some ⟨first.file, x⟩ →
      first.position.offset ≤ x ∧ x < last.position.offset

def positionsIn (s : Source) (start stop id : Nat) (file : SourceFile) : List Position :=
  ((s.provenances start stop).filter (·.file = id)).map
    fun origin => file.lined.position origin.offset

section Positions

variable {s : Source} {start stop id : Nat} {file : SourceFile}

theorem mem_onLine_positionsIn (hfile : s.file? id = some file) {line : Nat} {p : Position} :
    p ∈ onLine (s.positionsIn start stop id file) line ↔
      ∃ k ∈ s.offsetsOn start stop id line, ∃ x,
        s.provenance? k = some ⟨id, x⟩ ∧ p = file.lined.position x := by
  rw [mem_onLine, positionsIn, List.mem_map]
  constructor
  · rintro ⟨⟨⟨f, x⟩, hmem, rfl⟩, hline⟩
    rw [List.mem_filter, mem_provenances] at hmem
    obtain ⟨⟨k, hk, hprov⟩, hf⟩ := hmem
    obtain rfl : f = id := by simpa using hf
    refine ⟨k, mem_offsetsOn.2 ⟨hk, _, hprov, rfl, ?_⟩, x, hprov, rfl⟩
    rw [lineOf?, hfile, Option.map_some, ← hline]
    rfl
  · rintro ⟨k, hk, x, hprov, rfl⟩
    obtain ⟨hrange, origin, hprov', -, hline⟩ := mem_offsetsOn.1 hk
    obtain rfl : origin = ⟨id, x⟩ := Option.some.inj (hprov'.symm.trans hprov)
    refine ⟨⟨⟨id, x⟩, ?_, rfl⟩, ?_⟩
    · rw [List.mem_filter, mem_provenances]
      exact ⟨⟨k, hrange, hprov⟩, by simp⟩
    · rw [lineOf?, hfile, Option.map_some] at hline
      exact Option.some.inj hline

theorem length_onLine_positionsIn (hfile : s.file? id = some file) (line : Nat) :
    (onLine (s.positionsIn start stop id file) line).length =
      (s.offsetsOn start stop id line).card := by
  rw [onLine, positionsIn, ← List.countP_eq_length_filter, List.countP_map, List.countP_filter,
    offsetsOn, ← countP_provenances]
  congr 1
  funext origin
  by_cases h : origin.file = id
  · subst h
    simp [lineOf?, hfile, LinedText.position]
  · simp [h]

theorem mapM_positionAt (hfile : s.file? id = some file) :
    (((s.provenances start stop).filter (·.file = id)).map (·.offset)).mapM
        file.lined.positionAt = .ok (s.positionsIn start stop id file) := by
  rw [Results.mapM_eq_ok (g := file.lined.position), positionsIn, List.map_map]
  · rfl
  · intro x hx
    simp only [List.mem_map, List.mem_filter, mem_provenances, decide_eq_true_eq] at hx
    obtain ⟨origin, ⟨⟨k, -, hk⟩, rfl⟩, rfl⟩ := hx
    obtain ⟨found, hfound, hlt⟩ := file?_of_provenance? hk
    obtain rfl : found = file := Option.some.inj (hfound.symm.trans hfile)
    rw [LinedText.positionAt, if_pos hlt.le]

end Positions

def Touches (s : Source) (start stop : Nat) : Prop :=
  ∃ k, (start ≤ k ∧ k < stop) ∧ (s.provenance? k).isSome

theorem provenances_eq_nil_iff {s : Source} {start stop : Nat} :
    s.provenances start stop = [] ↔ ¬ s.Touches start stop := by
  rw [List.eq_nil_iff_forall_not_mem, Touches, not_exists]
  simp only [mem_provenances, not_exists, not_and, Option.isSome_iff_exists]
  exact ⟨fun h k hk origin => h origin k hk, fun h origin k hk => h k hk origin⟩

theorem reportedFile_eq_none_iff {bytes : List Provenance} :
    reportedFile bytes = none ↔ bytes = [] := by
  unfold reportedFile
  split
  · next hnone => simpa [List.max?_eq_none_iff] using hnone
  · next deepest hsome =>
    have hne : bytes ≠ [] := by
      rintro rfl
      simp at hsome
    simp only [hne, iff_false]
    split
    · simp
    · split <;> simp

theorem fileSpan_eq_none {s : Source} {start stop : Nat} (hlt : start < stop)
    (hle : stop ≤ s.flat.size) (h : ¬ s.Touches start stop) :
    s.fileSpan start stop = .ok none := by
  rw [fileSpan, if_neg (Nat.not_le.2 hlt), if_neg (Nat.not_lt.2 hle)]
  simp only [provenances_eq_nil_iff.2 h]
  rfl

theorem exists_fileSpan {s : Source} {start stop : Nat} (hlt : start < stop)
    (hle : stop ≤ s.flat.size) (h : s.Touches start stop) :
    ∃ first last, s.fileSpan start stop = .ok (some (first, last)) ∧
      s.FileSpans start stop first last := by
  have hbytes : s.provenances start stop ≠ [] := fun hnil => provenances_eq_nil_iff.1 hnil h
  obtain ⟨id, hid⟩ := Option.ne_none_iff_exists'.1 (mt reportedFile_eq_none_iff.1 hbytes)
  have hreported := isReportedFile_of_reportedFile hid
  obtain ⟨origin, horigin, hof⟩ := List.countP_pos_iff.1 hreported.share_pos
  obtain rfl : origin.file = id := by simpa using hof
  obtain ⟨k, hk, hprov⟩ := mem_provenances.1 horigin
  obtain ⟨file, hfile, -⟩ := file?_of_provenance? hprov
  have hpositions : s.positionsIn start stop origin.file file ≠ [] := by
    have hmem : origin ∈ (s.provenances start stop).filter (·.file = origin.file) := by
      rw [List.mem_filter]
      exact ⟨horigin, by simp⟩
    rw [positionsIn, ne_eq, List.map_eq_nil_iff]
    exact List.ne_nil_of_mem hmem
  obtain ⟨line, first, final, hends, hspans⟩ := exists_lineEnds hpositions
  have hspan := lineSpan_of_lineEnds hends
  have hfirst := mem_onLine_positionsIn hfile |>.1 hspans.first_mem
  have hline := (mem_onLine.1 hspans.first_mem).2
  have hfinalLine := (mem_onLine.1 hspans.last_mem).2
  refine ⟨⟨file.path, origin.file, first⟩, ⟨file.path, origin.file, final.next⟩, ?_, ?_⟩
  · rw [fileSpan, if_neg (Nat.not_le.2 hlt), if_neg (Nat.not_lt.2 hle)]
    simp only [hid, hfile, mapM_positionAt hfile, hspan, Results.mapError_ok, Results.ok_bind]
  · obtain rfl := hline
    refine ⟨?_, ⟨file, hfile, rfl⟩, rfl, rfl, ?_, hfinalLine, ?_, ?_, ?_⟩
    · rwa [funext (share_provenances s start stop)] at hreported
    · simpa only [length_onLine_positionsIn hfile] using hspans.reported
    · obtain ⟨k, hk, x, hx, rfl⟩ := hfirst
      exact ⟨k, hk, hx⟩
    · obtain ⟨k, hk, x, hx, rfl⟩ := (mem_onLine_positionsIn hfile).1 hspans.last_mem
      exact ⟨k, hk, x, hx, rfl⟩
    · intro k hk x hx
      have hmem := (mem_onLine_positionsIn hfile).2 ⟨k, hk, x, hx, rfl⟩
      have hbegin := (hspans.first_precedes _ hmem).offset_le
      have hend := (hspans.precedes_last _ hmem).offset_le
      exact ⟨hbegin, Nat.lt_succ_of_le hend⟩

end Source

theorem Origin.ofPointers_eq_ok {p q : Pointer} (hpath : p.place.path = q.place.path)
    (hplace : p.place.position.offset < q.place.position.offset)
    (hsource : p.source.offset < q.source.offset) :
    Origin.ofPointers p q = .ok ⟨p, q, hpath, hplace, hsource⟩ := by
  rw [Origin.ofPointers, dif_pos hpath, dif_pos hplace, dif_pos hsource]

namespace Document

/-! ## Pulling back the end -/

/-- The end of a range is pulled back to just after the last of its bytes that
comes from the file. -/
theorem isGreatest_pullBack {s : Source} {file start count : Nat}
    (h : (s.offsetsOf start (start + 1 + count) file).Nonempty) :
    ∃ last, IsGreatest (s.offsetsOf start (start + 1 + count) file : Set Nat) last ∧
      pullBack s file start count = last + 1 := by
  induction count with
  | zero =>
      obtain ⟨k, hk⟩ := h
      obtain ⟨⟨hstart, hstop⟩, -⟩ := Source.mem_offsetsOf.1 hk
      obtain rfl : k = start := by omega
      refine ⟨k, ⟨hk, fun other hother => ?_⟩, rfl⟩
      have := (Source.mem_offsetsOf.1 hother).1
      omega
  | succ count ih =>
      unfold pullBack
      split
      · next hlast =>
        obtain ⟨origin, hprov, hfile⟩ := Option.map_eq_some_iff.1 hlast
        refine ⟨start + 1 + count, ⟨?_, fun other hother => ?_⟩, rfl⟩
        · exact Source.mem_offsetsOf.2 ⟨by omega, origin, hprov, hfile⟩
        · have := (Source.mem_offsetsOf.1 hother).1
          omega
      · next hlast =>
        -- The last byte comes from elsewhere, so the range without it has the same share.
        have hsame : s.offsetsOf start (start + 1 + (count + 1)) file =
            s.offsetsOf start (start + 1 + count) file := by
          ext k
          rw [Source.mem_offsetsOf, Source.mem_offsetsOf]
          constructor
          · rintro ⟨hk, origin, hprov, hfile⟩
            have hne : k ≠ start + 1 + count := by
              rintro rfl
              exact hlast (by rw [hprov, Option.map_some, hfile])
            exact ⟨by omega, origin, hprov, hfile⟩
          · rintro ⟨hk, horigin⟩
            exact ⟨by omega, horigin⟩
        rw [hsame] at h ⊢
        exact ih h

/-! ## The origin of a range -/

def cutStart (d : Document) (start stop : Nat) : Nat := max start (stop - d.spanLimit)

theorem cutStart_lt (d : Document) {start stop : Nat} (h : start < stop) :
    d.cutStart start stop < stop := by
  have := d.spanLimit_pos
  unfold cutStart
  omega

/-- What an origin has to do with the flat range that it was traced from. -/
structure Traces (d : Document) (start stop : Nat) (o : Origin) : Prop where
  spans : d.source.FileSpans start stop o.start.place o.stop.place
  source_start : o.start.source = d.source.flat.position start
  source_stop : ∃ last, IsGreatest (d.source.offsetsOf start stop o.fileId : Set Nat) last ∧
    o.stop.source = d.source.flat.position (last + 1)
  no_text : o.start.text = none ∧ o.stop.text = none

theorem cutStart_eq (d : Document) {start stop : Nat} :
    (if d.spanLimit < stop - start then stop - d.spanLimit else start) =
      d.cutStart start stop := by
  unfold cutStart
  split <;> omega

theorem originOfRange_eq_noOrigin (d : Document) {start stop : Nat} (hlt : start < stop)
    (hle : stop ≤ d.source.flat.size) (h : ¬ d.source.Touches (d.cutStart start stop) stop) :
    d.originOfRange start stop = .error (.noOrigin (d.cutStart start stop) stop) := by
  have hspan := Source.fileSpan_eq_none (d.cutStart_lt hlt) hle h
  unfold originOfRange
  rw [if_neg (Nat.not_lt.2 hlt.le)]
  simp only [cutStart_eq, hspan]
  rfl

theorem exists_originOfRange (d : Document) {start stop : Nat} (hlt : start < stop)
    (hle : stop ≤ d.source.flat.size) (h : d.source.Touches (d.cutStart start stop) stop) :
    ∃ o, d.originOfRange start stop = .ok o ∧ d.Traces (d.cutStart start stop) stop o := by
  have hcut := d.cutStart_lt hlt
  obtain ⟨first, last, hspan, hspans⟩ := Source.exists_fileSpan hcut hle h
  set begin := d.cutStart start stop with hbegin
  have hrange : begin + 1 + (stop - begin - 1) = stop := by omega
  have htouched :
      (d.source.offsetsOf begin (begin + 1 + (stop - begin - 1)) first.file).Nonempty := by
    rw [hrange, ← Finset.card_pos]
    exact hspans.file.share_pos
  obtain ⟨final, hfinal, hback⟩ := isGreatest_pullBack htouched
  rw [hrange] at hfinal
  have hfinalRange := (Source.mem_offsetsOf.1 hfinal.1).1
  have hplace : first.position.offset < last.position.offset := by
    obtain ⟨k, hk, hx⟩ := hspans.first_touched
    exact (hspans.encloses k hk _ hx).2
  refine ⟨⟨⟨first, d.source.flat.position begin, none⟩,
    ⟨last, d.source.flat.position (final + 1), none⟩, hspans.same_path.symm, hplace,
    Nat.lt_succ_of_le hfinalRange.1⟩, ?_, hspans, rfl, ⟨final, hfinal, rfl⟩, rfl, rfl⟩
  unfold originOfRange
  rw [if_neg (Nat.not_lt.2 hlt.le)]
  have hsourceFirst := LinedText.positionAt_eq_ok (hcut.le.trans hle)
  have hsourceLast : d.source.flat.positionAt (final + 1) = .ok _ :=
    LinedText.positionAt_eq_ok (by omega)
  simp only [cutStart_eq, ← hbegin, hspan, hback, Results.ok_bind, hsourceFirst, hsourceLast,
    Results.mapError_ok]
  exact Origin.ofPointers_eq_ok _ _ _

theorem locate_offset (text : LinedText) (offset : Nat) (overflow : Overflow) :
    locate text (.offset offset) overflow =
      if offset ≤ text.size then .ok (text.position offset)
      else .error (.outOfBounds offset text.size) := by
  unfold locate LinedText.check? LinedText.find?
  by_cases h : offset ≤ text.size
  · simp only [h, if_true]
    rfl
  · simp only [h, if_false]
    rfl

theorem locateRange_offsets_eq_ok {text : LinedText} {b e : Nat} {first last : Position}
    (h : locateRange text (.offset b) (.offset e) = .ok (first, last)) :
    b < e ∧ e ≤ text.size ∧ first = text.position b ∧ last = text.position e := by
  rw [locateRange, locate_offset, locate_offset] at h
  simp only [Results.bind_eq_ok] at h
  obtain ⟨p, hp, q, hq, h⟩ := h
  split at hp
  · split at hq
    · next he =>
      obtain rfl := Except.ok.inj hp
      obtain rfl := Except.ok.inj hq
      split at h
      · next hlt =>
        obtain ⟨rfl, rfl⟩ := Prod.mk.inj (Results.pure_eq_ok.1 h)
        exact ⟨hlt, he, rfl, rfl⟩
      · simp [throw, throwThe, MonadExceptOf.throw] at h
    · simp at hq
  · simp at hp

/-- The origin of a flat range lies in the file that stands for the range, once
this is cut to its last bytes, and on the line that stands for the bytes of that
file. It encloses the bytes of that line, and in the flat source it reaches from
the start of the cut range to the last byte of the file. -/
theorem originOfSource_traces (d : Document) {b e : Nat} {o : Origin}
    (h : d.originOfSource (.offset b) (.offset e) = .ok o) :
    d.Traces (max b (e - d.spanLimit)) e o := by
  rw [originOfSource] at h
  obtain ⟨⟨first, last⟩, hrange, horigin⟩ := Results.bind_eq_ok.1 h
  obtain ⟨hlt, hle, rfl, rfl⟩ := locateRange_offsets_eq_ok hrange
  change d.originOfRange b e = .ok o at horigin
  by_cases htouches : d.source.Touches (d.cutStart b e) e
  · obtain ⟨found, hfound, htraces⟩ := d.exists_originOfRange hlt hle htouches
    obtain rfl : found = o := Except.ok.inj (hfound.symm.trans horigin)
    exact htraces
  · rw [d.originOfRange_eq_noOrigin hlt hle htouches] at horigin
    simp at horigin

/-- A document whose file of two lines includes one byte of another at the start
of the second line; ranges are cut to five bytes. -/
def loneBytes : Document where
  source := {
    flat := .ofString "abc\nXd"
    files := #[⟨"/main.tex", .ofString "abc\n\\input\x7bs\x7dd"⟩, ⟨"/s.tex", .ofString "X"⟩]
    origins := #[some ⟨0, 0⟩, some ⟨0, 1⟩, some ⟨0, 2⟩, some ⟨0, 3⟩, some ⟨1, 0⟩, some ⟨0, 13⟩]
    size_origins := rfl
    holds := Source.holds_of_stray? (by decide +kernel) }
  plain := ⟨.ofString "", #[], rfl, List.Pairwise.nil⟩
  spanLimit := 5
  spanLimit_pos := by decide
  fits := by simp

/-- Of the range `abc⏎Xd` the first byte is cut off, the single deeper byte and
the single byte on the second line are passed over, and `bc⏎` is reported. -/
theorem traces_loneBytes : ∃ o : Origin,
    loneBytes.originOfSource (.offset 0) (.offset 6) = .ok o ∧
      o.fileId = 0 ∧ o.fileSpan = (1, 4) ∧ o.sourceSpan = (1, 6) ∧ loneBytes.Traces 1 6 o := by
  refine ⟨_, rfl, rfl, rfl, rfl, ?_⟩
  exact originOfSource_traces loneBytes (b := 0) (e := 6) rfl

end Document

end LatexOrigins
