import LatexOrigins.Proofs.Analysis.Matches
import LatexOrigins.Proofs.Document.Characters
import LatexOrigins.Proofs.Document.SourceSpan
import LatexOrigins.Proofs.Pattern.Places

/-!
# Quoted matches

The id of a problem quotes the part of the file that the problem is found in, and it
quotes nothing where this part would split a character. A match is made of whole
characters, and so is the part of a file that it comes from; only the limit for ranges,
which counts bytes, can cut a character at its start.
-/

namespace LatexOrigins.Document

variable {files : FileSet} {settings : Settings} {main : String} {d : Document} {o : Origin}

theorem isBoundary_cutStart {b e : Nat} (hb : Text.isBoundary d.flatText b = true)
    (hcut : d.spanLimit < e - b → Text.isBoundary d.flatText (e - d.spanLimit) = true) :
    Text.isBoundary d.flatText (d.cutStart b e) = true := by
  rw [← cutStart_eq]
  split
  next hlong => exact hcut hlong
  · exact hb

theorem Traces.exists_content {b e : Nat} (htraces : d.Traces b e o)
    (h : build files settings main = .ok d) :
    ∃ content, files.read o.file = .ok content ∧ d.source.content? o.file = some content ∧
      d.source.file? o.fileId = some ⟨o.file, .ofString content⟩ := by
  obtain ⟨flat, hflat, hbuilt⟩ := exists_builtFrom h
  obtain ⟨k, -, hfirst⟩ := htraces.spans.first_touched
  obtain ⟨path, content, hfile, hread, hcontent, -⟩ :=
    hbuilt.exists_place (Flat.faithful_of_expand hflat) hfirst
  obtain ⟨file, hplace, hpath⟩ := htraces.spans.place
  obtain rfl := Option.some.inj (hplace.symm.trans hfile)
  obtain rfl : o.file = path := hpath
  exact ⟨content, hread, hcontent, hfile⟩

/-- The part of a file that a range between characters comes from is a text. -/
theorem Traces.exists_quote {b e : Nat} (htraces : d.Traces b e o)
    (h : build files settings main = .ok d) (hb : Text.isBoundary d.flatText b = true)
    (he : Text.isBoundary d.flatText e = true) :
    ∃ content text, files.read o.file = .ok content ∧
      d.source.content? o.file = some content ∧
      Text.isBoundary content o.fileSpan.1 = true ∧
      Text.isBoundary content o.fileSpan.2 = true ∧
      Text.slice? content o.fileSpan.1 o.fileSpan.2 = some text ∧ text ≠ "" := by
  obtain ⟨content, hread, hcontent, hfile⟩ := htraces.exists_content h
  have hkeeps := keepsCharacters_of_build h
  have hfirst := hkeeps.isBoundary_first htraces.spans hfile hb
  have hlast := hkeeps.isBoundary_last htraces.spans hfile he
  rw [LinedText.text_ofString] at hfirst hlast
  obtain ⟨text, htext⟩ := Option.isSome_iff_exists.1
    (Text.slice?_isSome_iff.2 ⟨hfirst, hlast, o.place_lt.le⟩)
  refine ⟨content, text, hread, hcontent, hfirst, hlast, htext, ?_⟩
  rintro rfl
  have hsize := Text.utf8ByteSize_of_slice? htext
  have hlt := o.place_lt
  rw [String.utf8ByteSize_empty] at hsize
  omega

theorem matched_eq {content text : String} (hcontent : d.source.content? o.file = some content)
    (htext : Text.slice? content o.fileSpan.1 o.fileSpan.2 = some text) :
    PatternRule.matched d o = text := by
  rw [PatternRule.matched]
  simp only [hcontent, Option.bind_some, htext, Option.getD_some]

theorem mem_check_of_mem_find {rule : PatternRule} (h : .ok o ∈ d.find rule.pattern rule.target) :
    rule.problem d o ∈ rule.toChecker.check d :=
  List.mem_map_of_mem (List.mem_filterMap.2 ⟨_, h, rfl⟩)

/-- What the origin of a match has to do with its file: both its ends lie between
characters of the file, and a checker reports the match under the text in between. -/
structure Quotes (files : FileSet) (d : Document) (m : Matcher) (o : Origin)
    (content text : String) : Prop where
  read : files.read o.file = .ok content
  held : d.source.content? o.file = some content
  start : Text.isBoundary content o.fileSpan.1 = true
  stop : Text.isBoundary content o.fileSpan.2 = true
  slice : Text.slice? content o.fileSpan.1 o.fileSpan.2 = some text
  ne_empty : text ≠ ""
  reported : ∀ rule : PatternRule, rule.pattern = m → rule.target = .source →
    ∃ problem ∈ rule.toChecker.check d,
      problem.origin = o ∧ problem.longId = rule.rule ++ ":" ++ text

/-- A match in the flat source, made of whole characters, quotes its file, as long as the limit
for ranges does not cut through a character of it. -/
theorem originOfSource_quotes (h : build files settings main = .ok d) {m : Matcher}
    {range : Nat × Nat} (hmatch : range ∈ m.matches d.flatText)
    (hstart : Text.isBoundary d.flatText range.1 = true)
    (hstop : Text.isBoundary d.flatText range.2 = true)
    (hcut : d.spanLimit < range.2 - range.1 →
      Text.isBoundary d.flatText (range.2 - d.spanLimit) = true)
    (ho : d.originOfSource (.offset range.1) (.offset range.2) = .ok o) :
    ∃ content text, d.Quotes files m o content text := by
  obtain ⟨b, e, hb, he, htraces⟩ := d.exists_traces_of_originOfSource ho
  cases hb with | offset =>
  cases he with | offset =>
  obtain ⟨content, text, hread, hcontent, hfirst, hlast, htext, hne⟩ :=
    htraces.exists_quote h (isBoundary_cutStart hstart hcut) hstop
  refine ⟨content, text, hread, hcontent, hfirst, hlast, htext, hne, ?_⟩
  rintro rule rfl htarget
  have hfound : .ok o ∈ d.find rule.pattern rule.target := by
    rw [htarget, find_eq_map]
    exact List.mem_map.2 ⟨range, hmatch, ho⟩
  refine ⟨_, mem_check_of_mem_find hfound, rfl, ?_⟩
  rw [PatternRule.problem, matched_eq hcontent htext]

/-- A file with a character of two bytes. -/
def accentedFiles : MemoryFiles := .ofList "/" [("main.tex", "éa")]

/-- Settings under which a range counts with as many of its last bytes as the limit says. -/
def limited (limit : Nat) : Settings := { Settings.standard with spanLimit := limit }

theorem exists_accented_pattern :
    ∃ p : Pattern, p.matcher.matches "éa" = [(0, 3)] := by
  have hmatches : (Pattern.ofText "éa").toOption.map (·.matcher.matches "éa") =
      some [(0, 3)] := by
    decide +kernel
  obtain ⟨p, -, hmatches⟩ := Option.map_eq_some_iff.1 hmatches
  exact ⟨p, hmatches⟩

/-- One byte of the match `éa` counts, and this is a character. -/
theorem quotes_accented : ∃ d m o,
    build accentedFiles.toFileSet (limited 1) "main.tex" = .ok d ∧
      (0, 3) ∈ m.matches d.flatText ∧
      Text.isBoundary d.flatText 0 = true ∧ Text.isBoundary d.flatText 3 = true ∧
      (d.spanLimit < 3 - 0 → Text.isBoundary d.flatText (3 - d.spanLimit) = true) ∧
      d.originOfSource (.offset 0) (.offset 3) = .ok o ∧
      ∃ content text, d.Quotes accentedFiles.toFileSet m o content text := by
  have hevaluated : (build accentedFiles.toFileSet (limited 1) "main.tex").toOption.map
      (fun d => (d.flatText, d.spanLimit)) = some ("éa", 1) := by
    decide +kernel
  obtain ⟨d, hd, hparts⟩ := Option.map_eq_some_iff.1 hevaluated
  obtain ⟨htext, hlimit⟩ := Prod.mk.inj hparts
  obtain ⟨p, hmatches⟩ := exists_accented_pattern
  have hbuild := Results.toOption_eq_some.1 hd
  have hmatch : (0, 3) ∈ p.matcher.matches d.flatText := by
    rw [htext, hmatches]
    exact List.mem_singleton_self _
  obtain ⟨hstart, hstop⟩ := Pattern.isBoundary_of_mem_ranges (List.mem_of_mem_filter hmatch)
  have hcut : d.spanLimit < 3 - 0 → Text.isBoundary d.flatText (3 - d.spanLimit) = true := by
    rw [htext, hlimit]
    decide +kernel
  have hsize : 3 ≤ (d.searched .source).utf8ByteSize := by
    change 3 ≤ d.flatText.utf8ByteSize
    rw [htext]
    decide
  obtain ⟨o, ho⟩ := (complete_of_build hbuild).exists_originOf .source (Nat.zero_lt_succ 2) hsize
  exact ⟨d, p.matcher, o, hbuild, hmatch, hstart, hstop, hcut, ho,
    originOfSource_quotes hbuild hmatch hstart hstop hcut ho⟩

/-- Of the match `éa` two bytes count, of which the first lies inside a character. So the
origin starts there, and what is reported quotes nothing. -/
theorem not_quotes_accented : ∃ d m o,
    build accentedFiles.toFileSet (limited 2) "main.tex" = .ok d ∧
      (0, 3) ∈ m.matches d.flatText ∧
      Text.isBoundary d.flatText 0 = true ∧ Text.isBoundary d.flatText 3 = true ∧
      d.originOfSource (.offset 0) (.offset 3) = .ok o ∧
      d.source.content? o.file = some "éa" ∧ o.fileSpan = (1, 3) ∧
      Text.isBoundary "éa" 1 = false ∧
      ∀ rule : PatternRule, rule.pattern = m → rule.target = .source →
        (rule.toChecker.check d).map (·.longId) = [rule.rule ++ ":"] := by
  have hevaluated : (build accentedFiles.toFileSet (limited 2) "main.tex").toOption.bind (fun d =>
      (d.originOfSource (.offset 0) (.offset 3)).toOption.map fun o =>
        (d.flatText, d.source.content? o.file, o.fileSpan, PatternRule.matched d o)) =
      some ("éa", some "éa", (1, 3), "") := by
    decide +kernel
  obtain ⟨d, hd, hparts⟩ := Option.bind_eq_some_iff.1 hevaluated
  obtain ⟨o, hfound, hparts⟩ := Option.map_eq_some_iff.1 hparts
  simp only [Prod.mk.injEq] at hparts
  obtain ⟨htext, hcontent, hspan, hmatched⟩ := hparts
  obtain ⟨p, hmatches⟩ := exists_accented_pattern
  rw [← htext] at hmatches
  have ho := Results.toOption_eq_some.1 hfound
  have hmatch : (0, 3) ∈ p.matcher.matches d.flatText := by
    rw [hmatches]
    exact List.mem_singleton_self _
  obtain ⟨hstart, hstop⟩ := Pattern.isBoundary_of_mem_ranges (List.mem_of_mem_filter hmatch)
  refine ⟨d, p.matcher, o, Results.toOption_eq_some.1 hd, hmatch, hstart, hstop, ho, hcontent,
    hspan, by decide +kernel, ?_⟩
  rintro rule hrule htarget
  have hfind : d.find rule.pattern rule.target = [o].map .ok := by
    rw [htarget, find_eq_map, hrule]
    change (p.matcher.matches d.flatText).map _ = _
    rw [hmatches]
    exact congrArg List.singleton ho
  rw [problems_of_find hfind, List.map_map]
  change [rule.rule ++ ":" ++ PatternRule.matched d o] = _
  rw [hmatched, String.append_empty]

end LatexOrigins.Document
