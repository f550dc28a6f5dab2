import LatexOrigins.Proofs.Document.Building
import LatexOrigins.Proofs.Document.Queries
import LatexOrigins.Proofs.Flat.Faithful
import LatexOrigins.Proofs.Plain.Stripped

/-!
# Copied bytes

A byte of the plain text that was copied is a byte of a file, and asking for its
origin answers with exactly that byte. The map leads to the flat byte that was
copied, the table of the flat source to the byte of the file that stands there,
and a range of one byte is traced to the byte that it comes from, whatever the
limit for ranges is.
-/

namespace LatexOrigins

theorem Source.lt_size_of_provenance? {s : Source} {k : Nat} {origin : Provenance}
    (h : s.provenance? k = some origin) : k < s.flat.size := by
  rw [← s.size_origins]
  by_contra hle
  rw [provenance?, Array.getElem?_eq_none (Nat.le_of_not_lt hle)] at h
  simp at h

namespace Document

theorem exists_originOfRange_byte (d : Document) {k : Nat} {origin : Provenance}
    (h : d.source.provenance? k = some origin) :
    ∃ o file, d.originOfRange k (k + 1) = .ok o ∧ d.source.file? origin.file = some file ∧
      o.file = file.path ∧ o.fileSpan = (origin.offset, origin.offset + 1) := by
  have hstart : d.cutStart k (k + 1) = k := by
    have := d.spanLimit_pos
    unfold cutStart
    omega
  have htouches : d.source.Touches (d.cutStart k (k + 1)) (k + 1) :=
    ⟨k, by omega, by rw [h, Option.isSome_some]⟩
  obtain ⟨o, ho, htraces⟩ := d.exists_originOfRange (Nat.lt_succ_self k)
    (Source.lt_size_of_provenance? h) htouches
  rw [hstart] at htraces
  have hspans := htraces.spans
  obtain ⟨i, hi, hfirst⟩ := hspans.first_touched
  obtain ⟨j, hj, x, hlast, hstop⟩ := hspans.last_touched
  obtain ⟨file, hfile, hpath⟩ := hspans.place
  -- The range has only one byte, so both ends of the span come from it.
  obtain rfl : i = k := by
    have := (Source.mem_offsetsOn.1 hi).1
    omega
  obtain rfl : j = i := by
    have := (Source.mem_offsetsOn.1 hj).1
    omega
  obtain rfl : origin = ⟨o.start.place.file, o.start.place.position.offset⟩ :=
    Option.some.inj (h.symm.trans hfirst)
  obtain rfl : o.start.place.position.offset = x := by
    have hsame := Option.some.inj (hfirst.symm.trans hlast)
    exact congrArg Provenance.offset hsame
  refine ⟨o, file, ho, hfile, hpath, ?_⟩
  rw [Origin.fileSpan, hstop]

theorem originOfSource_offsets (d : Document) {b e : Nat} (hlt : b < e)
    (hle : e ≤ d.source.flat.size) :
    d.originOfSource (.offset b) (.offset e) = d.originOfRange b e := by
  rw [originOfSource_of_names (.offset (hlt.le.trans hle)) (.offset hle), if_pos hlt]

/-- A range of the plain text has the origin of the flat range that it stems from, with
its own positions attached. -/
theorem originOfText_eq_map (d : Document) {b e x last : Nat} (hlt : b < e)
    (hx : d.plain.map[b]? = some x) (hlast : d.plain.map[e - 1]? = some last) :
    d.originOfText (.offset b) (.offset e) = (d.originOfRange x (last + 1)).map fun o =>
      o.withText (d.plain.lined.position b) (d.plain.lined.position e) := by
  have hle : e ≤ d.plain.lined.size := by
    have hinside := (Array.getElem?_eq_some_iff.1 hlast).1
    rw [d.plain.size_map] at hinside
    omega
  have hfind {n : Nat} (hn : n ≤ d.plain.lined.size) :
      d.plain.lined.find? (.offset n) = some (d.plain.lined.position n) := by
    rw [LinedText.find?, if_pos hn]
  obtain ⟨x', last', hx', hlast', -, -, hanswer⟩ :=
    originOfText_of_find? (hfind (hlt.le.trans hle)) (hfind hle) hlt
  obtain rfl : x' = x := Option.some.inj (hx'.symm.trans hx)
  obtain rfl : last' = last := Option.some.inj (hlast'.symm.trans hlast)
  exact hanswer

theorem originOfText_byte (d : Document) {k y : Nat} {o : Origin}
    (hmap : d.plain.map[k]? = some y) (ho : d.originOfRange y (y + 1) = .ok o) :
    d.originOfText (.offset k) (.offset (k + 1)) =
      .ok (o.withText (d.plain.lined.position k) (d.plain.lined.position (k + 1))) := by
  rw [d.originOfText_eq_map (Nat.lt_succ_self k) hmap hmap, ho]
  rfl

/-- The table of a document that was built leads each flat byte to an equal byte of
a file, and that file has the content that is read under its path. -/
theorem BuiltFrom.exists_byte {options : Plain.Options} {files : FileSet} {flat : Flat}
    {d : Document} (h : BuiltFrom options flat d) (hfaithful : flat.Faithful files) {y : Nat}
    (hy : y < flat.text.utf8ByteSize) :
    ∃ origin path content, d.source.provenance? y = some origin ∧
      d.source.file? origin.file = some ⟨path, .ofString content⟩ ∧
      files.read path = .ok content ∧ d.source.content? path = some content ∧
      (Text.bytes content)[origin.offset]? = (Text.bytes flat.text)[y]? := by
  obtain ⟨origin, copy, horigin, hcopy, -, hbyte⟩ := hfaithful.stems y hy
  have hmem := Array.mem_of_getElem? hcopy
  refine ⟨origin, copy.path, copy.content, ?_, h.file? hcopy, hfaithful.copies copy hmem, ?_,
    hbyte.symm⟩
  · rw [Source.provenance?, h.origins_eq, horigin]
    rfl
  · apply h.content? hmem
    intro other hother hpath
    have hread := hfaithful.copies other hother
    rw [hpath, hfaithful.copies copy hmem] at hread
    exact (Except.ok.inj hread).symm

theorem BuiltFrom.exists_place {options : Plain.Options} {files : FileSet} {flat : Flat}
    {d : Document} (h : BuiltFrom options flat d) (hfaithful : flat.Faithful files) {y : Nat}
    {origin : Provenance} (horigin : d.source.provenance? y = some origin) :
    ∃ path content, d.source.file? origin.file = some ⟨path, .ofString content⟩ ∧
      files.read path = .ok content ∧ d.source.content? path = some content ∧
      (Text.bytes content)[origin.offset]? = (Text.bytes flat.text)[y]? := by
  have hy := Source.lt_size_of_provenance? horigin
  have htext : d.source.flat.text = flat.text := h.flatText
  rw [LinedText.size, htext] at hy
  obtain ⟨found, path, content, hfound, hplace⟩ := h.exists_byte hfaithful hy
  obtain rfl := Option.some.inj (horigin.symm.trans hfound)
  exact ⟨path, content, hplace⟩

/-- Every flat byte comes from a file. -/
def Complete (d : Document) : Prop := ∀ k < d.source.flat.size, (d.source.provenance? k).isSome

theorem complete_of_build {files : FileSet} {settings : Settings} {main : String} {d : Document}
    (h : build files settings main = .ok d) : d.Complete := by
  obtain ⟨flat, hflat, hbuilt⟩ := exists_builtFrom h
  intro k hk
  rw [hbuilt.flat_eq] at hk
  obtain ⟨origin, -, -, horigin, -⟩ := hbuilt.exists_byte (Flat.faithful_of_expand hflat) hk
  rw [horigin]
  rfl

/-- The origin of a copied byte of the plain text is one byte of a file, which has
the content that is read under its path, and the two bytes are equal. -/
theorem originOfText_copied {files : FileSet} {settings : Settings} {main : String}
    {d : Document} (h : build files settings main = .ok d) {k start stop j : Nat}
    (hin : Plain.LiesIn (Plain.blocks settings.plain d.flatText) k (.copy start stop) j) :
    ∃ o x content b, d.originOfText (.offset k) (.offset (k + 1)) = .ok o ∧
      o.fileSpan = (x, x + 1) ∧ o.textSpan = some (k, k + 1) ∧
      files.read o.file = .ok content ∧ d.source.content? o.file = some content ∧
      (Text.bytes content)[x]? = some b ∧ (Text.bytes d.text)[k]? = some b := by
  obtain ⟨flat, hflat, hbuilt⟩ := exists_builtFrom h
  have hfaithful := Flat.faithful_of_expand hflat
  rw [hbuilt.flatText] at hin
  obtain ⟨hmap, hlt, htext⟩ := Plain.copied_of_liesIn hbuilt.strip_eq hin
  obtain ⟨origin, path, content, hprov, hfile, hread, hcontent, hbyte⟩ :=
    hbuilt.exists_byte hfaithful hlt
  obtain ⟨o, file, ho, hfound, hpath, hspan⟩ := d.exists_originOfRange_byte hprov
  obtain rfl := Option.some.inj (hfound.symm.trans hfile)
  have hb := List.getElem?_eq_getElem (l := Text.bytes flat.text) hlt
  refine ⟨_, origin.offset, content, _, d.originOfText_byte hmap ho, hspan, rfl, ?_, ?_,
    hbyte.trans hb, htext.trans hb⟩
  · change files.read o.file = .ok content
    rw [hpath, hread]
  · change d.source.content? o.file = some content
    rw [hpath, hcontent]

/-- A file that includes another behind a tie, in which a sign is escaped. -/
def escapedFiles : MemoryFiles :=
  .ofList "/" [("main.tex", "a~\\input\x7bs\x7d"), ("s.tex", "b\\%é")]

theorem exists_build_escapedFiles :
    ∃ d, build escapedFiles.toFileSet .standard "main.tex" = .ok d ∧ d.flatText = "a~b\\%é" := by
  have hbuild : (build escapedFiles.toFileSet .standard "main.tex").toOption.map (·.flatText) =
      some "a~b\\%é" := by
    decide +kernel
  obtain ⟨d, hd, htext⟩ := Option.map_eq_some_iff.1 hbuild
  exact ⟨d, Results.toOption_eq_some.1 hd, htext⟩

/-- The sign is copied, as the fourth byte of the plain text `a b%é`. -/
theorem originOfText_escaped : ∃ d, build escapedFiles.toFileSet .standard "main.tex" = .ok d ∧
    Plain.LiesIn (Plain.blocks .standard d.flatText) 3 (.copy 4 5) 0 ∧
    ∃ o x content b, d.originOfText (.offset 3) (.offset 4) = .ok o ∧
      o.fileSpan = (x, x + 1) ∧ o.textSpan = some (3, 4) ∧
      escapedFiles.toFileSet.read o.file = .ok content ∧
      d.source.content? o.file = some content ∧
      (Text.bytes content)[x]? = some b ∧ (Text.bytes d.text)[3]? = some b := by
  obtain ⟨d, hd, htext⟩ := exists_build_escapedFiles
  have hblocks : Plain.blocks .standard "a~b\\%é" =
      [.copy 0 1, .replace " " 1 2, .copy 2 3, .copy 4 5, .copy 5 7] := by
    decide +kernel
  have hin : Plain.LiesIn (Plain.blocks .standard d.flatText) 3 (.copy 4 5) 0 := by
    rw [htext, hblocks]
    have hfront : Plain.LiesIn [.copy 4 5, .copy 5 7] 0 (.copy 4 5) 0 :=
      Plain.LiesIn.front (by decide)
    exact hfront.behind.behind.behind
  exact ⟨d, hd, hin, originOfText_copied hd hin⟩

end Document

end LatexOrigins
