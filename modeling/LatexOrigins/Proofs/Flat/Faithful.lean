import LatexOrigins.Proofs.Document.Gates
import LatexOrigins.Proofs.Flat.Building
import Mathlib.Data.List.Forall2

/-!
# Flat sources are faithful to their files

Every byte of the flat source that flattening makes is a byte of a file that was
read: its entry in the table says which. Text and table are grown together and
cut back together, so they stay in step through every move, and what they say
stays true because files are only ever added.
-/

namespace LatexOrigins.Flat

/-- A flat source that says of each of its bytes, truly, where it comes from. -/
structure Faithful (files : FileSet) (flat : Flat) : Prop where
  copies : ∀ copy ∈ flat.files, files.read copy.path = .ok copy.content
  size : flat.origins.size = flat.text.utf8ByteSize
  /-- Each entry names a byte of a registered file, and that is the byte. -/
  stems : ∀ k, k < flat.text.utf8ByteSize → ∃ origin copy,
    flat.origins[k]? = some (some origin) ∧ flat.files[origin.file]? = some copy ∧
      origin.offset < copy.content.utf8ByteSize ∧
      flat.textBytes[k]? = (Text.bytes copy.content)[origin.offset]?

def Stems (copies : Array FileCopy) (b : UInt8) (entry : Option Provenance) : Prop :=
  ∃ origin copy, entry = some origin ∧ copies[origin.file]? = some copy ∧
    (Text.bytes copy.content)[origin.offset]? = some b

theorem Stems.of_grown {flat flat' : Flat} {b : UInt8} {entry : Option Provenance}
    (hgrown : flat.files.toList <+: flat'.files.toList) (h : Stems flat.files b entry) :
    Stems flat'.files b entry := by
  obtain ⟨origin, copy, hentry, hcopy, hb⟩ := h
  exact ⟨origin, copy, hentry, getElem?_files_of_grown hgrown hcopy, hb⟩

theorem forall₂_stems_cutOut {copies : Array FileCopy} {id start stop : Nat} {copy : FileCopy}
    (hcopy : copies[id]? = some copy) (hstop : start < stop → stop ≤ copy.content.utf8ByteSize) :
    List.Forall₂ (Stems copies) (cutOut copy.content start stop) (provenances id start stop) := by
  have hlength : (cutOut copy.content start stop).length = stop - start := by
    simp only [cutOut, List.length_take, List.length_drop, Text.length_bytes]
    omega
  rw [List.forall₂_iff_get]
  refine ⟨by rw [hlength, length_provenances], fun i hi hi' => ?_⟩
  have hinside : i < stop - start := hlength ▸ hi
  refine ⟨⟨id, start + i⟩, copy, ?_, hcopy, ?_⟩
  · simp [provenances]
  · change (Text.bytes copy.content)[start + i]? = _
    rw [← getElem?_cutOut hinside, List.getElem?_eq_getElem hi]
    rfl

/-- What flattening keeps: registered files are as they are read, and text and
table are in step. -/
structure InStep (files : FileSet) (flat : Flat) : Prop where
  copies : ∀ copy ∈ flat.files, files.read copy.path = .ok copy.content
  stems : List.Forall₂ (Stems flat.files) flat.textBytes flat.entries

theorem InStep.content_eq {files : FileSet} {flat : Flat} {id : Nat} {copy : FileCopy}
    {content : String} (hflat : InStep files flat) (hcopy : flat.files[id]? = some copy)
    (hread : files.read copy.path = .ok content) : copy.content = content := by
  have hsame := hflat.copies copy (Array.mem_of_getElem? hcopy)
  exact Except.ok.inj (hsame.symm.trans hread)

theorem preserved_inStep (files : FileSet) : Preserved files (InStep files) where
  enter := by
    intro flat path content hread hflat
    obtain ⟨hgrown, htext, horigins, -, hcopies⟩ := enter_spec flat path content
    constructor
    · intro copy hcopy
      rcases hcopies copy hcopy with hold | rfl
      · exact hflat.copies copy hold
      · exact hread
    · rw [textBytes, entries, htext, horigins]
      exact hflat.stems.imp fun _ _ h => h.of_grown hgrown
  keep := by
    rintro flat flat' id _ content start stop hread ⟨copy, hcopy, rfl⟩ hflat hkeep
    obtain ⟨hfiles, hbytes, hentries⟩ := keep_eq_ok hkeep
    obtain rfl := hflat.content_eq hcopy hread
    constructor
    · rw [hfiles]
      exact hflat.copies
    · rw [hfiles, hbytes, hentries]
      exact List.rel_append hflat.stems
        (forall₂_stems_cutOut hcopy (le_size_of_keep_eq_ok hkeep))
  retract := by
    intro flat flat' count hflat hretract
    obtain ⟨-, hfiles, hbytes, hentries⟩ := retract_eq_ok hretract
    constructor
    · rw [hfiles]
      exact hflat.copies
    · rw [hfiles, hbytes, hentries]
      exact List.forall₂_take _ hflat.stems

theorem InStep.faithful {files : FileSet} {flat : Flat} (h : InStep files flat) :
    flat.Faithful files where
  copies := h.copies
  size := by simpa using h.stems.length_eq.symm
  stems := by
    intro k hk
    have hlength := h.stems.length_eq
    have hbyte : k < flat.textBytes.length := hk
    have hentry : k < flat.entries.length := by rwa [← hlength]
    obtain ⟨origin, copy, hsome, hcopy, hb⟩ := h.stems.get hbyte hentry
    refine ⟨origin, copy, ?_, hcopy, ?_, ?_⟩
    · rw [← Array.getElem?_toList, List.getElem?_eq_getElem hentry]
      exact congrArg some hsome
    · exact (List.getElem?_eq_some_iff.1 hb).1
    · rw [hb, List.getElem?_eq_getElem hbyte]
      rfl

theorem Faithful.exists_source {files : FileSet} {flat : Flat} (h : flat.Faithful files) :
    ∃ s, Source.ofFlat flat = .ok s := by
  refine Source.exists_ofFlat h.size ?_
  rintro k ⟨found, hfound, hstray⟩
  have hlt := (Array.getElem?_eq_some_iff.1 hfound).1
  obtain ⟨origin, copy, horigin, hcopy, hoffset, -⟩ := h.stems k (h.size ▸ hlt)
  obtain rfl : origin = found := Option.some.inj (Option.some.inj (horigin.symm.trans hfound))
  exact hstray ⟨copy, hcopy, hoffset⟩

theorem faithful_of_expand {files : FileSet} {options : Options} {main : String} {flat : Flat}
    (h : expand files options main = .ok flat) : flat.Faithful files := by
  have hempty : InStep files empty := by
    constructor
    · simp [empty]
    · simp [empty, textBytes, entries, Text.bytes]
  exact (expand_preserves (preserved_inStep files) hempty h).faithful

/-- A flat source that flattening makes has one entry for each byte, and each entry
names the byte of a registered file that stands there; a registered file has the
content that is read under its path. Such a flat source passes the check of its
table. -/
theorem expand_faithful {files : FileSet} {options : Options} {main : String} {flat : Flat}
    (h : expand files options main = .ok flat) :
    flat.Faithful files ∧ ∃ s, Source.ofFlat flat = .ok s := by
  have hfaithful := faithful_of_expand h
  exact ⟨hfaithful, hfaithful.exists_source⟩

/-- A file with an indented comment, and with an inclusion in an argument that stays;
the included file ends in a comment. -/
def nestedFiles : MemoryFiles :=
  .ofList "/" [("main.tex", "a\n  % x\n\\added\x7bb\\input\x7bs\x7d\x7d c"), ("s.tex", "é%d")]

def nestedFlat : Flat where
  text := "a\nbé c"
  files := #[⟨"/main.tex", "a\n  % x\n\\added\x7bb\\input\x7bs\x7d\x7d c"⟩, ⟨"/s.tex", "é%d"⟩]
  origins := #[some ⟨0, 0⟩, some ⟨0, 1⟩, some ⟨0, 15⟩, some ⟨1, 0⟩, some ⟨1, 1⟩, some ⟨0, 26⟩,
    some ⟨0, 27⟩]

theorem expand_nestedFiles :
    expand nestedFiles.toFileSet .standard "main.tex" = .ok nestedFlat := by
  decide +kernel

theorem faithful_nestedFlat : expand nestedFiles.toFileSet .standard "main.tex" = .ok nestedFlat ∧
    nestedFlat.Faithful nestedFiles.toFileSet ∧ ∃ s, Source.ofFlat nestedFlat = .ok s :=
  ⟨expand_nestedFiles, expand_faithful expand_nestedFiles⟩

end LatexOrigins.Flat
