import LatexOrigins.Command.Basic
import LatexOrigins.Command.Standard
import LatexOrigins.Proofs.Document.Answer
import LatexOrigins.Proofs.Document.Copied
import LatexOrigins.Proofs.Json.OneLine

/-!
# Every match is reported

In a document that was built every flat byte comes from a file, and the map leads
every range of the plain text to flat bytes. So no range that holds a byte is without
an origin, and a search loses no match on the way: one origin is found, one problem
is reported and one line is printed for each match that is not empty.
-/

namespace LatexOrigins

/-- The matches that are not empty, in their order. -/
def Matcher.matches (m : Matcher) (text : String) : List (Nat × Nat) :=
  (m.ranges text).filter fun range => range.1 ≠ range.2

/-- The matches are ranges of the text that is searched. -/
def Matcher.Within (m : Matcher) (text : String) : Prop :=
  ∀ range ∈ m.ranges text, range.1 ≤ range.2 ∧ range.2 ≤ text.utf8ByteSize

instance (m : Matcher) (text : String) : Decidable (m.Within text) :=
  inferInstanceAs (Decidable (∀ range ∈ m.ranges text, _ ∧ _))

theorem Matcher.Within.bounds {m : Matcher} {text : String} (h : m.Within text)
    {range : Nat × Nat} (hrange : range ∈ m.matches text) :
    range.1 < range.2 ∧ range.2 ≤ text.utf8ByteSize := by
  obtain ⟨hmem, hne⟩ := List.mem_filter.1 hrange
  obtain ⟨hle, hsize⟩ := h range hmem
  exact ⟨Nat.lt_of_le_of_ne hle (by simpa using hne), hsize⟩

theorem Invocation.output_find {tools : Toolkit} {disk : Disk} {i : Invocation} {text : String}
    {target : SearchTarget} {m : Matcher} {d : Document} (hcommand : i.command = .find text target)
    (hpattern : tools.compile? text = some m) (hdocument : i.document tools disk = .ok d) :
    i.output tools disk = .ok (d.listing tools m target) := by
  rw [Invocation.output, hcommand]
  simp only [Toolkit.pattern_eq_ok hpattern, hdocument, Results.ok_bind]
  rfl

namespace Document

/-- The text that a search looks at. -/
def searched (d : Document) : SearchTarget → String
  | .source => d.flatText
  | .text => d.text

def originOf (d : Document) (target : SearchTarget) (range : Nat × Nat) :
    Except Origin.Error Origin :=
  match target with
  | .source => d.originOfSource (.offset range.1) (.offset range.2)
  | .text => d.originOfText (.offset range.1) (.offset range.2)

theorem find_eq_map (d : Document) (m : Matcher) (target : SearchTarget) :
    d.find m target = (m.matches (d.searched target)).map (d.originOf target) := by
  cases target with
  | source | text => rfl

/-! ## Origins -/

theorem Complete.touches {d : Document} (h : d.Complete) {x y : Nat} (hlt : x < y)
    (hle : y ≤ d.source.flat.size) : d.source.Touches (d.countedFrom x y) y := by
  have hlimit := d.spanLimit_pos
  refine ⟨y - 1, ⟨?_, by omega⟩, h (y - 1) (by omega)⟩
  rw [countedFrom]
  omega

theorem Complete.exists_originOf {d : Document} (h : d.Complete) (target : SearchTarget)
    {b e : Nat} (hlt : b < e) (hle : e ≤ (d.searched target).utf8ByteSize) :
    ∃ o, d.originOf target (b, e) = .ok o := by
  cases target with
  | source =>
      have hsize : e ≤ d.source.flat.size := hle
      exact (d.answered_originOfSource (LinedText.not_overruns_offsets _ b e)).ok_iff.2
        ⟨b, e, b, e, .offset (by omega), .offset hsize, hlt, ⟨rfl, rfl⟩, h.touches hlt hsize⟩
  | text =>
      have hsize : e ≤ d.plain.lined.size := hle
      obtain ⟨x, last, hx, hlast, hxlast, hinside⟩ := d.exists_stemsFrom hlt hsize
      exact (d.answered_originOfText (LinedText.not_overruns_offsets _ b e)).ok_iff.2
        ⟨b, e, x, last + 1, .offset (by omega), .offset hsize, hlt, ⟨hx, last, hlast, rfl⟩,
          h.touches (by omega) hinside⟩

/-! ## Reports -/

/-- What a matcher finds is one origin for each match that is not empty, in the order of the
matches. A checker makes one problem of each, and the command that searches for a pattern from
which the matcher was compiled prints one line for each and nothing else. -/
structure Reports (d : Document) (tools : Toolkit) (m : Matcher) (target : SearchTarget)
    (origins : List Origin) : Prop where
  resolved : (m.matches (d.searched target)).map (d.originOf target) = origins.map .ok
  found : d.find m target = origins.map .ok
  problems : ∀ rule : PatternRule, rule.pattern = m → rule.target = target →
    rule.toChecker.check d = origins.map (rule.problem d)
  printed : ∀ (disk : Disk) (i : Invocation) (text : String), i.command = .find text target →
    tools.compile? text = some m → i.document tools disk = .ok d →
    ∃ lines : List String, lines.length = (m.matches (d.searched target)).length ∧
      (∀ line ∈ lines, OneLine line) ∧
      i.output tools disk = .ok (String.join (lines.map (· ++ "\n")))

theorem listing_eq_join {d : Document} {tools : Toolkit} {m : Matcher} {target : SearchTarget}
    {origins : List Origin} (h : d.find m target = origins.map .ok) :
    d.listing tools m target =
      String.join ((origins.map fun o => tools.compact o.record.toJson).map (· ++ "\n")) := by
  rw [listing, h, Results.filterMap_toOption_map_ok, List.map_map]
  rfl

theorem problems_of_find {d : Document} {rule : PatternRule} {origins : List Origin}
    (h : d.find rule.pattern rule.target = origins.map .ok) :
    rule.toChecker.check d = origins.map (rule.problem d) := by
  change ((d.find rule.pattern rule.target).filterMap Except.toOption).map (rule.problem d) = _
  rw [h, Results.filterMap_toOption_map_ok]

theorem reports_of_find {d : Document} {tools : Toolkit} {m : Matcher} {target : SearchTarget}
    {origins : List Origin} (hline : ∀ o ∈ origins, OneLine (tools.compact o.record.toJson))
    (h : d.find m target = origins.map .ok) : d.Reports tools m target origins := by
  have hresolved := d.find_eq_map m target ▸ h
  refine ⟨hresolved, h, ?_, ?_⟩
  · rintro rule rfl rfl
    exact problems_of_find h
  · intro disk i text hcommand hpattern hdocument
    refine ⟨origins.map fun o => tools.compact o.record.toJson, ?_, ?_, ?_⟩
    · have hlength := congrArg List.length hresolved
      rw [List.length_map, List.length_map] at hlength
      rw [List.length_map, hlength]
    · intro line hmem
      obtain ⟨o, ho, rfl⟩ := List.mem_map.1 hmem
      exact hline o ho
    · rw [Invocation.output_find hcommand hpattern hdocument, listing_eq_join h]

/-- In a document that was built each match that is not empty is reported, be it of the
flat source or of the plain text, as long as the matches are ranges of that text and the
compact layout of an origin is one line. -/
theorem exists_reports {files : FileSet} {settings : Settings} {main : String} {d : Document}
    (h : build files settings main = .ok d) {tools : Toolkit}
    (hline : ∀ o : Origin, OneLine (tools.compact o.record.toJson)) {m : Matcher}
    {target : SearchTarget} (hm : m.Within (d.searched target)) :
    ∃ origins, d.Reports tools m target origins := by
  have hcomplete := complete_of_build h
  obtain ⟨origins, horigins⟩ :=
    Results.exists_map_eq_map_ok (f := d.originOf target) fun range hrange => by
      obtain ⟨hlt, hle⟩ := hm.bounds hrange
      exact hcomplete.exists_originOf target hlt hle
  exact ⟨origins, reports_of_find (fun o _ => hline o) (d.find_eq_map m target ▸ horigins)⟩

/-- Of the matches of `%?` in the flat text `a~b\%é` one holds a byte. -/
theorem reports_escaped : ∃ d m, build escapedFiles.toFileSet .standard "main.tex" = .ok d ∧
    Toolkit.standard.compile? "%?" = some m ∧
    (∀ o : Origin, OneLine (Toolkit.standard.compact o.record.toJson)) ∧
    m.Within (d.searched .source) ∧ m.matches (d.searched .source) = [(4, 5)] ∧
    ∃ origins, d.Reports .standard m .source origins := by
  obtain ⟨d, hd, htext⟩ := exists_build_escapedFiles
  have hranges : (Pattern.compile? "%?").map (·.ranges "a~b\\%é") =
      some [(0, 0), (1, 1), (2, 2), (3, 3), (4, 5), (7, 7)] := by
    decide +kernel
  obtain ⟨m, hm, hranges⟩ := Option.map_eq_some_iff.1 hranges
  have hsearched : d.searched .source = "a~b\\%é" := htext
  have hwithin : m.Within (d.searched .source) := by
    rw [hsearched, Matcher.Within, hranges]
    decide
  have hline (o : Origin) : OneLine (Toolkit.standard.compact o.record.toJson) :=
    Json.oneLine_compact _
  refine ⟨d, m, hd, hm, hline, hwithin, ?_, exists_reports hd hline hwithin⟩
  rw [hsearched, Matcher.matches, hranges]
  rfl

end Document

end LatexOrigins
