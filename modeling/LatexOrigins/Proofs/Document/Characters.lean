import LatexOrigins.Proofs.Document.Copied
import LatexOrigins.Proofs.Flat.Unsplit
import LatexOrigins.Proofs.Text.LineTable

/-!
# Origins of whole characters

In a document that was built a character of the flat text is a character of a file,
with all its bytes. A range between characters therefore has an origin between
characters: where its span in the file would start inside a character, the byte before
would belong to the range and to the line too, and so would the byte behind where it
would end inside one.
-/

namespace LatexOrigins

open Text (Continues)

/-- The characters of a flat source are characters of its files. -/
structure Source.KeepsCharacters (s : Source) : Prop where
  complete : ∀ k < s.flat.size, (s.provenance? k).isSome
  byte_eq : ∀ {k origin file}, s.provenance? k = some origin →
    s.file? origin.file = some file →
    (Text.bytes s.flat.text)[k]? = (Text.bytes file.lined.text)[origin.offset]?
  /-- Where a character goes on, in the flat text or in the file, the bytes of the file
  follow each other. -/
  goes_on : ∀ {k origin file}, s.provenance? k = some origin →
    s.file? origin.file = some file →
    Continues (Text.bytes s.flat.text) (k + 1) ∨
      Continues (Text.bytes file.lined.text) (origin.offset + 1) →
    s.provenance? (k + 1) = some ⟨origin.file, origin.offset + 1⟩

namespace Source.KeepsCharacters

variable {s : Source} {start stop : Nat} {first last : FilePlace} {file : SourceFile}

theorem lineOf?_succ {id offset : Nat} (hfile : s.file? id = some file)
    (h : Continues (Text.bytes file.lined.text) (offset + 1)) :
    s.lineOf? ⟨id, offset + 1⟩ = s.lineOf? ⟨id, offset⟩ := by
  rw [lineOf?, lineOf?, hfile, Option.map_some, Option.map_some]
  exact congrArg some (LinedText.lineAt_succ h.ne_lineBreak)

theorem isBoundary_first (h : s.KeepsCharacters) (hspans : s.FileSpans start stop first last)
    (hfile : s.file? first.file = some file)
    (hstart : Text.isBoundary s.flat.text start = true) :
    Text.isBoundary file.lined.text first.position.offset = true := by
  obtain ⟨k, hk, hfirst⟩ := hspans.first_touched
  obtain ⟨hrange, origin, horigin, -, hline⟩ := mem_offsetsOn.1 hk
  obtain rfl : origin = ⟨first.file, first.position.offset⟩ :=
    Option.some.inj (horigin.symm.trans hfirst)
  obtain ⟨found, hfound, hinside⟩ := file?_of_provenance? hfirst
  obtain rfl : found = file := Option.some.inj (hfound.symm.trans hfile)
  refine Text.isBoundary_iff_not_continues.2 ⟨hinside.le, fun hgoes => ?_⟩
  have hflat := (Text.continues_congr (h.byte_eq hfirst hfile)).2 hgoes
  have hne : k ≠ start := by
    rintro rfl
    exact Text.not_continues_of_isBoundary hstart hflat
  obtain ⟨before, rfl⟩ : ∃ before, k = before + 1 := ⟨k - 1, by omega⟩
  -- The byte before is the one before in the file, and it lies on the same line.
  have hsize := hflat.lt_length
  obtain ⟨⟨id, offset⟩, hbefore⟩ := Option.isSome_iff_exists.1 (h.complete before (by
    rw [Text.length_bytes] at hsize
    exact (Nat.lt_succ_self before).trans hsize))
  obtain ⟨other, hother, -⟩ := file?_of_provenance? hbefore
  have hnext := h.goes_on hbefore hother (Or.inl hflat)
  obtain ⟨rfl, hoffset⟩ : first.file = id ∧ first.position.offset = offset + 1 := by
    simpa using hfirst.symm.trans hnext
  rw [hoffset] at hgoes hline
  have hmem : before ∈ s.offsetsOn start stop first.file first.position.line := by
    refine mem_offsetsOn.2 ⟨by omega, _, hbefore, rfl, ?_⟩
    rw [← lineOf?_succ hfile hgoes, hline]
  have hle := (hspans.encloses before hmem offset hbefore).1
  omega

theorem isBoundary_last (h : s.KeepsCharacters) (hspans : s.FileSpans start stop first last)
    (hfile : s.file? first.file = some file)
    (hstop : Text.isBoundary s.flat.text stop = true) :
    Text.isBoundary file.lined.text last.position.offset = true := by
  obtain ⟨k, hk, offset, hlast, hend⟩ := hspans.last_touched
  obtain ⟨hrange, origin, horigin, -, hline⟩ := mem_offsetsOn.1 hk
  obtain rfl : origin = ⟨first.file, offset⟩ := Option.some.inj (horigin.symm.trans hlast)
  obtain ⟨found, hfound, hinside⟩ := file?_of_provenance? hlast
  obtain rfl : found = file := Option.some.inj (hfound.symm.trans hfile)
  rw [hend]
  refine Text.isBoundary_iff_not_continues.2 ⟨hinside, fun hgoes => ?_⟩
  -- The byte behind is the next one of the file, so the range does not end before it.
  have hnext := h.goes_on hlast hfile (Or.inr hgoes)
  have hflat := (Text.continues_congr (h.byte_eq hnext hfile)).2 hgoes
  have hne : k + 1 ≠ stop := by
    rintro rfl
    exact Text.not_continues_of_isBoundary hstop hflat
  have hmem : k + 1 ∈ s.offsetsOn start stop first.file first.position.line := by
    refine mem_offsetsOn.2 ⟨by omega, _, hnext, rfl, ?_⟩
    rw [lineOf?_succ hfile hgoes, hline]
  have hlt := (hspans.encloses (k + 1) hmem (offset + 1) hnext).2
  omega

end Source.KeepsCharacters

namespace Document

theorem BuiltFrom.provenance?_eq_some {options : Plain.Options} {flat : Flat} {d : Document}
    (h : BuiltFrom options flat d) {k : Nat} {origin : Provenance} :
    d.source.provenance? k = some origin ↔ flat.entries[k]? = some (some origin) := by
  rw [Source.provenance?, h.origins_eq, Option.join_eq_some_iff, Array.getElem?_toList]

theorem BuiltFrom.exists_copy {options : Plain.Options} {flat : Flat} {d : Document}
    (h : BuiltFrom options flat d) {id : Nat} {file : SourceFile}
    (hfile : d.source.file? id = some file) :
    ∃ copy, flat.files[id]? = some copy ∧ file.lined.text = copy.content := by
  rw [Source.file?, h.files_eq, Array.getElem?_map] at hfile
  obtain ⟨copy, hcopy, rfl⟩ := Option.map_eq_some_iff.1 hfile
  exact ⟨copy, hcopy, LinedText.text_ofString _⟩

theorem keepsCharacters_of_build {files : FileSet} {settings : Settings} {main : String}
    {d : Document} (h : build files settings main = .ok d) : d.source.KeepsCharacters := by
  obtain ⟨flat, hflat, hbuilt⟩ := exists_builtFrom h
  have hfaithful := Flat.faithful_of_expand hflat
  have htext : d.source.flat.text = flat.text := hbuilt.flatText
  refine ⟨complete_of_build h, ?_, ?_⟩
  · intro k origin file horigin hfile
    obtain ⟨path, content, hplace, -, -, hbyte⟩ := hbuilt.exists_place hfaithful horigin
    obtain rfl := Option.some.inj (hplace.symm.trans hfile)
    rw [htext, ← hbyte, LinedText.text_ofString]
  · intro k origin file horigin hfile hgoes
    obtain ⟨copy, hcopy, hcontent⟩ := hbuilt.exists_copy hfile
    rw [htext, hcontent] at hgoes
    rw [hbuilt.provenance?_eq_some] at horigin ⊢
    exact Flat.unsplit_of_expand hflat k origin.file origin.offset copy horigin hcopy hgoes

end Document

end LatexOrigins
