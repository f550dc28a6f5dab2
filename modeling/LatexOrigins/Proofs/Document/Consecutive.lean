import LatexOrigins.Proofs.Document.Copied
import LatexOrigins.Proofs.Text.LineTable

/-!
# Ranges that were copied in one piece

A flat range whose bytes are consecutive bytes of one file is traced back to that
file and stands for the whole range. Of the range in the file the part on its last
line is reported, or the part on the line before if the last line has a single byte
of it and the line before has several; a range inside one line is reported as it is.
-/

namespace LatexOrigins

/-- The part of a range that lies on a line. -/
def LinedText.part (t : LinedText) (start stop line : Nat) : Finset Nat :=
  Finset.Ico start stop ∩ t.lineOffsets line

theorem LinedText.mem_part {t : LinedText} {start stop line x : Nat} (hstop : stop ≤ t.size) :
    x ∈ t.part start stop line ↔ (start ≤ x ∧ x < stop) ∧ t.lineAt x = line := by
  rw [part, Finset.mem_inter, Finset.mem_Ico, mem_lineOffsets]
  constructor
  · rintro ⟨hrange, -, hline⟩
    exact ⟨hrange, hline⟩
  · rintro ⟨hrange, hline⟩
    exact ⟨hrange, hrange.2.trans_le hstop, hline⟩

theorem LinedText.mem_part_of_between {t : LinedText} {start stop line x y z : Nat}
    (hstop : stop ≤ t.size) (hx : x ∈ t.part start stop line) (hz : z ∈ t.part start stop line)
    (hxy : x ≤ y) (hyz : y ≤ z) : y ∈ t.part start stop line := by
  rw [mem_part hstop] at hx hz ⊢
  refine ⟨⟨hx.1.1.trans hxy, hyz.trans_lt hz.1.2⟩, Nat.le_antisymm ?_ ?_⟩
  · exact hz.2 ▸ t.lineAt_mono hyz
  · exact hx.2 ▸ t.lineAt_mono hxy

namespace Source

/-- The bytes of a flat range are consecutive bytes of a file. -/
def Consecutive (s : Source) (b e file a : Nat) : Prop :=
  ∀ i < e - b, s.provenance? (b + i) = some ⟨file, a + i⟩

variable {s : Source} {b e file a k : Nat}

theorem Consecutive.provenance? (h : s.Consecutive b e file a) (hk : b ≤ k ∧ k < e) :
    s.provenance? k = some ⟨file, a + (k - b)⟩ := by
  have hoffset : b + (k - b) = k := Nat.add_sub_cancel' hk.1
  rw [← h (k - b) (by omega), hoffset]

theorem Consecutive.file_eq (h : s.Consecutive b e file a) {f : Nat}
    (hshare : 0 < (s.offsetsOf b e f).card) : f = file := by
  obtain ⟨k, hk⟩ := Finset.card_pos.1 hshare
  obtain ⟨hrange, origin, horigin, rfl⟩ := mem_offsetsOf.1 hk
  rw [h.provenance? hrange] at horigin
  obtain rfl := Option.some.inj horigin
  rfl

section File

variable {copy : SourceFile} {line : Nat}

theorem Consecutive.stop_le (h : s.Consecutive b e file a) (hlt : b < e)
    (hfile : s.file? file = some copy) : a + (e - b) ≤ copy.lined.size := by
  obtain ⟨found, hfound, hinside⟩ :=
    file?_of_provenance? (h.provenance? (k := e - 1) (by omega))
  obtain rfl : found = copy := Option.some.inj (hfound.symm.trans hfile)
  change a + (e - 1 - b) < found.lined.size at hinside
  omega

theorem Consecutive.mem_offsetsOn (h : s.Consecutive b e file a) (hlt : b < e)
    (hfile : s.file? file = some copy) :
    k ∈ s.offsetsOn b e file line ↔
      (b ≤ k ∧ k < e) ∧ a + (k - b) ∈ copy.lined.part a (a + (e - b)) line := by
  rw [Source.mem_offsetsOn, LinedText.mem_part (h.stop_le hlt hfile)]
  constructor
  · rintro ⟨hk, origin, horigin, -, hline⟩
    rw [h.provenance? hk] at horigin
    obtain rfl := Option.some.inj horigin
    rw [lineOf?, hfile, Option.map_some] at hline
    exact ⟨hk, by omega, Option.some.inj hline⟩
  · rintro ⟨hk, -, hline⟩
    refine ⟨hk, _, h.provenance? hk, rfl, ?_⟩
    rw [lineOf?, hfile, Option.map_some, ← hline]

theorem Consecutive.mem_offsetsOn_of_mem_part (h : s.Consecutive b e file a) (hlt : b < e)
    (hfile : s.file? file = some copy) {x : Nat}
    (hx : x ∈ copy.lined.part a (a + (e - b)) line) : b + (x - a) ∈ s.offsetsOn b e file line := by
  have hrange := ((LinedText.mem_part (h.stop_le hlt hfile)).1 hx).1
  have hback : a + (b + (x - a) - b) = x := by omega
  refine (h.mem_offsetsOn hlt hfile).2 ⟨by omega, ?_⟩
  rwa [hback]

theorem Consecutive.card_offsetsOn (h : s.Consecutive b e file a) (hlt : b < e)
    (hfile : s.file? file = some copy) :
    (s.offsetsOn b e file line).card = (copy.lined.part a (a + (e - b)) line).card := by
  apply Finset.card_nbij' (fun k => a + (k - b)) (fun x => b + (x - a))
  · intro k hk
    exact ((h.mem_offsetsOn hlt hfile).1 hk).2
  · intro x hx
    exact h.mem_offsetsOn_of_mem_part hlt hfile hx
  · intro k hk
    have hrange := ((h.mem_offsetsOn hlt hfile).1 hk).1
    simp only
    omega
  · intro x hx
    have hrange := ((LinedText.mem_part (h.stop_le hlt hfile)).1 hx).1
    simp only
    omega

/-- A span in the file that stands for the range is the part on the reported line. -/
theorem Consecutive.span_eq (h : s.Consecutive b e file a) (hlt : b < e)
    (hfile : s.file? file = some copy) {first last : FilePlace}
    (hspans : s.FileSpans b e first last) (hfirst : first.file = file) :
    Finset.Ico first.position.offset last.position.offset =
      copy.lined.part a (a + (e - b)) first.position.line := by
  obtain rfl := hfirst
  have hstop := h.stop_le hlt hfile
  have hmem {k x : Nat} (hk : k ∈ s.offsetsOn b e first.file first.position.line)
      (hx : s.provenance? k = some ⟨first.file, x⟩) :
      x ∈ copy.lined.part a (a + (e - b)) first.position.line := by
    obtain ⟨hrange, hpart⟩ := (h.mem_offsetsOn hlt hfile).1 hk
    rw [h.provenance? hrange] at hx
    obtain rfl : a + (k - b) = x := congrArg Provenance.offset (Option.some.inj hx)
    exact hpart
  obtain ⟨i, hi, hfirstOffset⟩ := hspans.first_touched
  obtain ⟨j, hj, x, hlast, hlastOffset⟩ := hspans.last_touched
  ext y
  rw [Finset.mem_Ico, hlastOffset, Nat.lt_succ_iff]
  constructor
  · rintro ⟨hfrom, hto⟩
    exact LinedText.mem_part_of_between hstop (hmem hi hfirstOffset) (hmem hj hlast) hfrom hto
  · intro hy
    have hrange := ((LinedText.mem_part hstop).1 hy).1
    have hback : a + (b + (y - a) - b) = y := by omega
    have hprovenance := h.provenance? (k := b + (y - a)) (by omega)
    rw [hback] at hprovenance
    have hinside := hspans.encloses _ (h.mem_offsetsOn_of_mem_part hlt hfile hy) y hprovenance
    rw [hlastOffset] at hinside
    omega

theorem Consecutive.fileSpan_eq (h : s.Consecutive b e file a) (hlt : b < e)
    (hfile : s.file? file = some copy) {x y : Nat}
    (hspan : Finset.Ico x y = copy.lined.part a (a + (e - b)) line) (hxy : x < y)
    (hone : copy.lined.lineAt a = copy.lined.lineAt (a + (e - b) - 1)) :
    (x, y) = (a, a + (e - b)) := by
  have hstop := h.stop_le hlt hfile
  have hmem (z : Nat) : (x ≤ z ∧ z < y) ↔
      (a ≤ z ∧ z < a + (e - b)) ∧ copy.lined.lineAt z = line := by
    rw [← Finset.mem_Ico, hspan, LinedText.mem_part hstop]
  -- The first byte of the part is between the ends of the range, which lie on one line.
  obtain ⟨hx, hline⟩ := (hmem x).1 ⟨Nat.le_refl x, hxy⟩
  have hfrom := copy.lined.lineAt_mono hx.1
  have hto := copy.lined.lineAt_mono (Nat.le_sub_one_of_lt hx.2)
  have hfirst := (hmem a).2 ⟨by omega, by omega⟩
  have hlast := (hmem (a + (e - b) - 1)).2 ⟨by omega, by omega⟩
  have hbehind := (hmem (y - 1)).1 ⟨by omega, by omega⟩
  rw [Prod.mk.injEq]
  omega

end File

end Source

namespace Document

theorem Traces.sourceSpan_eq {d : Document} {b e : Nat} {o : Origin} {origin : Provenance}
    (h : d.Traces b e o) (hlt : b < e) (hlast : d.source.provenance? (e - 1) = some origin)
    (hfile : origin.file = o.fileId) : o.sourceSpan = (b, e) := by
  obtain ⟨last, hgreatest, hstop⟩ := h.source_stop
  have hmem : e - 1 ∈ d.source.offsetsOf b e o.fileId :=
    Source.mem_offsetsOf.2 ⟨by omega, origin, hlast, hfile⟩
  have hle : e - 1 ≤ last := hgreatest.2 hmem
  have hlt' := (Source.mem_offsetsOf.1 hgreatest.1).1.2
  have hend : last + 1 = e := by omega
  rw [Origin.sourceSpan, h.source_start, hstop, hend]
  rfl

/-- A flat range of consecutive bytes of a file, not longer than the limit, has an origin
in that file, which stands for the whole range. Of the range in the file the part on its
last line is reported, unless that is a single byte and there are several on the line
before; a range on one line is reported as it is. -/
theorem originOfSource_consecutive (d : Document) {b e file a : Nat} (hlt : b < e)
    (hlimit : e - b ≤ d.spanLimit) (h : d.source.Consecutive b e file a) :
    ∃ o copy line, d.originOfSource (.offset b) (.offset e) = .ok o ∧
      d.source.file? file = some copy ∧ o.fileId = file ∧ o.file = copy.path ∧
      o.sourceSpan = (b, e) ∧
      IsReportedLine (fun l => (copy.lined.part a (a + (e - b)) l).card) line ∧
      Finset.Ico o.fileSpan.1 o.fileSpan.2 = copy.lined.part a (a + (e - b)) line ∧
      (copy.lined.lineAt a = copy.lined.lineAt (a + (e - b) - 1) →
        o.fileSpan = (a, a + (e - b))) := by
  have hcut : d.cutStart b e = b := by
    unfold cutStart
    omega
  have hlast := h.provenance? (k := e - 1) (by omega)
  have hsize : e ≤ d.source.flat.size := by
    have := Source.lt_size_of_provenance? hlast
    omega
  have htouches : d.source.Touches (d.cutStart b e) e :=
    ⟨e - 1, by omega, by rw [hlast, Option.isSome_some]⟩
  obtain ⟨o, ho, htraces⟩ := d.exists_originOfRange hlt hsize htouches
  rw [hcut] at htraces
  have hspans := htraces.spans
  have hfile : o.start.place.file = file := h.file_eq hspans.file.share_pos
  obtain ⟨copy, hcopy, hpath⟩ := hspans.place
  rw [hfile] at hcopy
  have hspan := h.span_eq hlt hcopy hspans hfile
  refine ⟨o, copy, o.start.place.position.line, ?_, hcopy, hfile, hpath, ?_, ?_, hspan, ?_⟩
  · rw [d.originOfSource_offsets hlt hsize, ho]
  · exact htraces.sourceSpan_eq hlt hlast hfile.symm
  · have hline := hspans.line
    rw [hfile] at hline
    simpa only [h.card_offsetsOn hlt hcopy] using hline
  · intro hone
    exact h.fileSpan_eq hlt hcopy hspan o.place_lt hone

/-- A document of one file with two lines, of which the second has one byte. -/
def twoLined : Document where
  source := {
    flat := .ofString "abc\nd"
    files := #[⟨"/main.tex", .ofString "%\nabc\nd"⟩]
    origins := #[some ⟨0, 2⟩, some ⟨0, 3⟩, some ⟨0, 4⟩, some ⟨0, 5⟩, some ⟨0, 6⟩]
    size_origins := rfl
    holds := Source.holds_of_stray? (by decide +kernel) }
  plain := loneBytes.plain
  spanLimit := 4
  spanLimit_pos := by decide
  fits := by decide +kernel

/-- The last byte of the range `bc⏎d` is alone on its line, so `bc⏎` is reported. -/
theorem consecutive_twoLined : 1 < 5 ∧ 5 - 1 ≤ twoLined.spanLimit ∧
    twoLined.source.Consecutive 1 5 0 3 ∧
    ∃ o copy line, twoLined.originOfSource (.offset 1) (.offset 5) = .ok o ∧
      twoLined.source.file? 0 = some copy ∧ o.fileId = 0 ∧ o.file = copy.path ∧
      o.sourceSpan = (1, 5) ∧
      IsReportedLine (fun l => (copy.lined.part 3 (3 + (5 - 1)) l).card) line ∧
      Finset.Ico o.fileSpan.1 o.fileSpan.2 = copy.lined.part 3 (3 + (5 - 1)) line ∧
      (copy.lined.lineAt 3 = copy.lined.lineAt (3 + (5 - 1) - 1) →
        o.fileSpan = (3, 3 + (5 - 1))) := by
  have hbytes : twoLined.source.Consecutive 1 5 0 3 := by
    unfold Source.Consecutive
    decide
  exact ⟨by decide, by decide, hbytes,
    originOfSource_consecutive twoLined (by decide) (by decide) hbytes⟩

example : (twoLined.originOfSource (.offset 1) (.offset 5)).toOption.map (·.fileSpan) =
    some (3, 6) := by
  decide +kernel

end Document

end LatexOrigins
