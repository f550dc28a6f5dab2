import LatexOrigins.Proofs.Document.Copied
import LatexOrigins.Proofs.Flat.Verbatim
import LatexOrigins.Proofs.Plain.Verbatim

/-!
# Origins of verbatim text

Both passes read a `\verb` command on their own, and both find the same argument. The first
leaves the command where it is, the second copies its text, and so the origin of a byte of it is
found through both tables.
-/

namespace LatexOrigins.Document

open Markup

variable {files : FileSet} {settings : Settings} {main path before behind : String} {d : Document}

theorem isPlain_of_unmarked (h : Plain.Unmarked before) :
    ∀ b ∈ Text.bytes before, Flat.isPlain b = true := by
  intro b hb
  rw [Flat.isPlain_iff]
  constructor
  · rintro rfl
    exact absurd (h _ hb) (by decide)
  · rintro rfl
    exact absurd (h _ hb) (by decide)

/-- The table of a document leads from the bytes that the main file starts with, up to the end of
a `\verb` command, to the bytes themselves. -/
theorem provenance?_verbatim (v : Verbatim) (hmain : Flat.findFile files main none = .ok path)
    (hread : files.read path = .ok (before ++ v.source ++ behind))
    (hbefore : Plain.Unmarked before) (h : build files settings main = .ok d) :
    (∃ rest, d.flatText = before ++ v.source ++ rest) ∧
      (∃ file, d.source.file? 0 = some file ∧ file.path = path) ∧
      ∀ y < (before ++ v.source).utf8ByteSize, d.source.provenance? y = some ⟨0, y⟩ := by
  obtain ⟨flat, hflat, hbuilt⟩ := exists_builtFrom h
  obtain ⟨hfile, block, hadded⟩ :=
    Flat.expand_verbatim v (isPlain_of_unmarked hbefore) hmain hread hflat
  have hcut : Flat.cutOut (before ++ v.source ++ behind) 0 (before ++ v.source).utf8ByteSize =
      Text.bytes (before ++ v.source) := by
    rw [Flat.cutOut, List.drop_zero, Nat.sub_zero, Text.bytes_append (before ++ v.source),
      ← Text.length_bytes, List.take_left]
  have hbytes : Flat.cutOut (before ++ v.source ++ behind) 0 (before ++ v.source).utf8ByteSize ++
      block.bytes = Text.bytes flat.text := hadded.bytes.symm
  have hentries : flat.origins.toList = Flat.provenances 0 0 (before ++ v.source).utf8ByteSize ++
      block.entries := hadded.entries
  refine ⟨?_, ⟨_, hbuilt.file? hfile, rfl⟩, fun y hy => ?_⟩
  · rw [hbuilt.flatText]
    rw [hcut] at hbytes
    exact Text.exists_append_of_prefix ⟨_, hbytes⟩
  · rw [Source.provenance?, hbuilt.origins_eq, ← Array.getElem?_toList, hentries,
      List.getElem?_append_left (by rwa [Flat.length_provenances]),
      Flat.getElem?_provenances hy, Nat.zero_add]
    rfl

/-- The text of a `\verb` command that the main file has behind bytes without markup stands
behind these bytes in the plain text, and the origin of each of its bytes is that byte of the
main file. -/
theorem originOfText_verbatim (v : Verbatim) (hmain : Flat.findFile files main none = .ok path)
    (hread : files.read path = .ok (before ++ v.source ++ behind))
    (hbefore : Plain.Unmarked before) (h : build files settings main = .ok d) :
    (∃ rest, d.text = before ++ v.text ++ rest) ∧
      ∀ j < v.text.utf8ByteSize, ∃ o,
        d.originOfText (.offset (before.utf8ByteSize + j))
          (.offset (before.utf8ByteSize + j + 1)) = .ok o ∧
        o.file = path ∧ o.fileSpan = (before.utf8ByteSize + v.lead + j,
          before.utf8ByteSize + v.lead + j + 1) := by
  obtain ⟨⟨rest, hflat⟩, ⟨file, hfile, hpath⟩, htable⟩ :=
    provenance?_verbatim v hmain hread hbefore h
  obtain ⟨flat, -, hbuilt⟩ := exists_builtFrom h
  obtain ⟨plain, map, -, hstrip⟩ := Plain.strip_verbatim v settings.plain hbefore rest
  rw [← hflat, hbuilt.flatText, hbuilt.strip_eq] at hstrip
  obtain ⟨htext, hmap⟩ := Prod.mk.inj (Except.ok.inj hstrip)
  refine ⟨⟨plain, htext⟩, fun j hj => ?_⟩
  have hentry : d.plain.map[before.utf8ByteSize + j]? =
      some (before.utf8ByteSize + v.lead + j) := by
    rw [hmap, List.getElem?_toArray, List.append_assoc,
      List.getElem?_append_right (by rw [List.length_range]; omega), List.length_range,
      Nat.add_sub_cancel_left, List.getElem?_append_left (by rwa [List.length_range']),
      List.getElem?_range' hj, Nat.one_mul]
  have hy : before.utf8ByteSize + v.lead + j < (before ++ v.source).utf8ByteSize := by
    have hstop := v.stop_eq
    rw [String.utf8ByteSize_append, v.utf8ByteSize_source, Group.width]
    omega
  obtain ⟨o, found, ho, hfound, hopath, hspan⟩ := d.exists_originOfRange_byte (htable _ hy)
  obtain rfl := Option.some.inj (hfound.symm.trans hfile)
  exact ⟨_, d.originOfText_byte hentry ho, hopath.trans hpath, hspan⟩

/-- A percent sign between percent signs, behind two characters. -/
def verbatimPercent : Verbatim where
  starred := true
  delimiter := '%'
  text := "\\input\x7bs\x7d é"
  graphic := by decide
  symbol := by decide
  unstarred := by decide
  inside := @of_decide_eq_true _ (List.decidableBAll _ _) rfl

/-- A file whose verbatim text is delimited by percent signs and looks like an inclusion. -/
def verbatimFiles : MemoryFiles :=
  .ofList "/" [("main.tex", "a " ++ verbatimPercent.source ++ " % c")]

theorem originOfText_verbatimFiles :
    ∃ d, build verbatimFiles.toFileSet .standard "main.tex" = .ok d ∧
      Flat.findFile verbatimFiles.toFileSet "main.tex" none = .ok "/main.tex" ∧
      verbatimFiles.toFileSet.read "/main.tex" = .ok ("a " ++ verbatimPercent.source ++ " % c") ∧
      Plain.Unmarked "a " ∧ (∃ rest, d.text = "a " ++ "\\input\x7bs\x7d é" ++ rest) ∧
      ∀ j < 12, ∃ o, d.originOfText (.offset (2 + j)) (.offset (2 + j + 1)) = .ok o ∧
        o.file = "/main.tex" ∧ o.fileSpan = (2 + 7 + j, 2 + 7 + j + 1) := by
  have hbuild : (build verbatimFiles.toFileSet .standard "main.tex").toOption.isSome = true := by
    decide +kernel
  obtain ⟨d, hd⟩ := Results.exists_ok_of_isSome hbuild
  have hmain : Flat.findFile verbatimFiles.toFileSet "main.tex" none = .ok "/main.tex" := by
    decide +kernel
  have hread : verbatimFiles.toFileSet.read "/main.tex" =
      .ok ("a " ++ verbatimPercent.source ++ " % c") := by
    decide +kernel
  have hbefore : Plain.Unmarked "a " := by decide +kernel
  exact ⟨d, hd, hmain, hread, hbefore,
    originOfText_verbatim verbatimPercent hmain hread hbefore hd⟩

end LatexOrigins.Document
