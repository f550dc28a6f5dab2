import LatexOrigins.Proofs.Document.Gates
import LatexOrigins.Proofs.Flat.Faithful
import LatexOrigins.Proofs.Flat.Scan
import LatexOrigins.Proofs.Flat.Total
import LatexOrigins.Proofs.Plain.Stripped

/-!
# Building a document fails only at an inclusion

What flattening makes of files in memory passes the check of its table, and what
stripping makes of that passes the checks of its map. So a document is built, or an
inclusion cannot be followed. On the way texts are only ever cut between characters.
-/

namespace LatexOrigins

open Markup

namespace Document

/-- What stripping makes of a flat source passes the checks of a plain text. -/
theorem exists_plain (files : FileSet) (settings : Settings) (flat : String) :
    ∃ p, Plain.ofSource flat (Pipeline.standard files settings).strip = .ok p ∧
      ∀ entry ∈ p.map, entry < flat.utf8ByteSize := by
  obtain ⟨text, hstrip, hbytes⟩ := Plain.exists_strip settings.plain flat
  have hwf := Plain.blocks_wellFormed settings.plain flat
  have hpass : (Pipeline.standard files settings).strip flat =
      .ok (text, ((Plain.blocks settings.plain flat).flatMap Plain.Block.map).toArray) :=
    Results.mapError_eq_ok.2 hstrip
  have hsize : ((Plain.blocks settings.plain flat).flatMap Plain.Block.map).toArray.size =
      text.utf8ByteSize := by
    rw [List.size_toArray, ← Text.length_bytes, hbytes, Plain.length_flatMap_map]
  have hmono := Plain.pairwise_flatMap_map hwf (Plain.blocks_disjoint settings.plain flat)
  have hfits : ∀ entry ∈ ((Plain.blocks settings.plain flat).flatMap Plain.Block.map).toArray,
      entry < flat.utf8ByteSize :=
    fun entry hentry => Plain.lt_size_of_mem_map (List.mem_toArray.1 hentry)
  obtain ⟨p, hp, hmap⟩ := Plain.exists_ofSource hpass hsize hmono hfits
  exact ⟨p, hp, hmap ▸ hfits⟩

theorem exists_build {files : FileSet} {settings : Settings} {main : String} {flat : Flat}
    (h : Flat.expand files settings.flatten main = .ok flat) :
    ∃ d, build files settings main = .ok d := by
  obtain ⟨source, hsource⟩ := (Flat.faithful_of_expand h).exists_source
  obtain ⟨plain, hplain, hfits⟩ := exists_plain files settings source.flat.text
  have hinside : ∀ entry ∈ plain.map, entry < source.flat.size := hfits
  obtain ⟨made, hmade⟩ := exists_ofParts hinside
  refine ⟨made.withSpanLimit settings.spanLimit, ?_⟩
  have hflat : (Pipeline.standard files settings).flatten main = .ok flat := h
  unfold build Pipeline.document Pipeline.source
  simp only [hflat, hsource, hplain, hmade, Results.ok_bind]
  rfl

theorem expand_of_build_eq_error {files : FileSet} {settings : Settings} {main : String}
    {e : LoadError} (h : build files settings main = .error e) :
    Flat.expand files settings.flatten main = .error e := by
  cases hflat : Flat.expand files settings.flatten main with
  | error cause =>
      have hcause : build files settings main = .error cause := by
        unfold build Pipeline.document Pipeline.source
        simp only [Pipeline.standard, hflat]
        rfl
      rw [Except.error.inj (hcause.symm.trans h)]
  | ok flat =>
      obtain ⟨d, hd⟩ := exists_build hflat
      cases hd.symm.trans h

theorem build_eq_error {files : MemoryFiles} {settings : Settings} {main : String} {e : LoadError}
    (h : build files.toFileSet settings main = .error e) : e.AtInclusion :=
  Flat.expand_eq_error (expand_of_build_eq_error h)

end Document

/-! ## Slices -/

/-- The places where a scan of a text stops lie between characters, and so do the ends
of the words, of the groups and of the lines around such a place. -/
structure Sliceable (text : String) (Stops : Nat → Prop) : Prop where
  stops : ∀ offset, Stops offset → Text.isBoundary text offset = true
  symbols : ∀ offset b, (Text.bytes text)[offset]? = some b → b < 0x80 →
    Text.isBoundary text offset = true ∧ Text.isBoundary text (offset + 1) = true
  words : ∀ offset, Text.isBoundary text offset = true →
    Text.isBoundary text (offset + wordWidth ((Text.bytes text).drop offset)) = true
  groups : ∀ offset g, Text.isBoundary text offset = true →
    braced ((Text.bytes text).drop offset) = some g ∨
      bracketed ((Text.bytes text).drop offset) = some g ∨
      verbArgument ((Text.bytes text).drop offset) = some g →
    Text.isBoundary text (offset + g.start) = true ∧
      Text.isBoundary text (offset + g.stop) = true ∧
      Text.isBoundary text (offset + g.width) = true
  lines : ∀ offset, Text.isBoundary text offset = true →
    Text.isBoundary text
        (offset - (restOfLine ((Text.bytes text).take offset).reverse).length) = true ∧
      Text.isBoundary text
        (offset + (restOfLine ((Text.bytes text).drop offset)).length) = true

theorem sliceable {text : String} {Stops : Nat → Prop}
    (h : ∀ offset, Stops offset → Cut (Text.bytes text) offset) : Sliceable text Stops where
  stops offset hstop := isBoundary_iff_cut.2 (h offset hstop)
  symbols offset b hb hascii := by
    have hcuts := Cut.of_ascii (Text.encoded_bytes text) hb hascii
    exact ⟨isBoundary_iff_cut.2 hcuts.1, isBoundary_iff_cut.2 hcuts.2⟩
  words offset hoffset := by
    have hcut := isBoundary_iff_cut.1 hoffset
    exact isBoundary_iff_cut.2 (hcut.add (cut_wordWidth hcut.encoded))
  groups offset g hoffset hg := by
    have hcut := isBoundary_iff_cut.1 hoffset
    have hcuts : g.Cuts ((Text.bytes text).drop offset) := by
      rcases hg with hg | hg | hg
      · exact braced_cuts hcut.encoded hg
      · exact bracketed_cuts hcut.encoded hg
      · exact verbArgument_cuts hcut.encoded hg
    exact ⟨isBoundary_iff_cut.2 (hcut.add hcuts.start), isBoundary_iff_cut.2 (hcut.add hcuts.stop),
      isBoundary_iff_cut.2 (hcut.add hcuts.width)⟩
  lines offset hoffset := by
    have hcut := isBoundary_iff_cut.1 hoffset
    exact ⟨isBoundary_iff_cut.2 (Flat.cut_lineStart (Text.encoded_bytes text) hcut.le_length),
      isBoundary_iff_cut.2 (hcut.add (cut_restOfLine hcut.encoded))⟩

/-- The offsets that the scan of a content comes to, and the ends of the ranges that it
scans. -/
def Flat.Stops (options : Flat.Options) (content : String) (offset : Nat) : Prop :=
  ∃ other, Scanned options (Text.bytes content) offset other ∨
    Scanned options (Text.bytes content) other offset

/-- Whatever the files, the settings and the name of the main file: the document is
built, or an inclusion cannot be followed. The scans of a file and of a flat text stop
between characters only. -/
theorem Document.build_total (files : MemoryFiles) (settings : Settings) (main : String) :
    ((∃ d, build files.toFileSet settings main = .ok d) ∨
      ∃ e, build files.toFileSet settings main = .error e ∧ e.AtInclusion) ∧
    (∀ content, Sliceable content (Flat.Stops settings.flatten content)) ∧
    ∀ flat, Sliceable flat (Plain.Reached settings.plain flat) := by
  refine ⟨?_, fun content => sliceable ?_, fun flat => sliceable fun _ hreached => hreached.cut⟩
  · cases h : build files.toFileSet settings main with
    | ok d => exact Or.inl ⟨d, rfl⟩
    | error e => exact Or.inr ⟨e, rfl, build_eq_error h⟩
  · rintro offset ⟨other, h | h⟩
    · exact (h.cuts (Text.encoded_bytes content)).1
    · exact (h.cuts (Text.encoded_bytes content)).2

end LatexOrigins
