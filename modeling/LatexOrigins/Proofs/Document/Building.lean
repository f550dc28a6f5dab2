import LatexOrigins.Document.Build
import LatexOrigins.Proofs.Results

/-!
# What a document is built from

A document that is built holds what the two passes made: the flat source with its
files and its table, and the plain text with its map. The checks on the way only
reject, they change nothing.
-/

namespace LatexOrigins

theorem Source.ofFlat_eq_ok {flat : Flat} {s : Source} (h : Source.ofFlat flat = .ok s) :
    s.flat = .ofString flat.text ∧
      s.files = flat.files.map (fun copy => ⟨copy.path, .ofString copy.content⟩) ∧
      s.origins = flat.origins := by
  unfold Source.ofFlat at h
  simp only at h
  split at h
  · split at h
    · simp at h
    · obtain rfl := Except.ok.inj h
      exact ⟨rfl, rfl, rfl⟩
  · simp at h

theorem Plain.ofMap_eq_ok {text : String} {map : Array Nat} {p : Plain}
    (h : Plain.ofMap text map = .ok p) : p.lined = .ofString text ∧ p.map = map := by
  unfold Plain.ofMap at h
  simp only at h
  split at h
  · split at h
    · simp at h
    · obtain rfl := Except.ok.inj h
      exact ⟨rfl, rfl⟩
  · simp at h

theorem Plain.ofSource_eq_ok {flat : String} {strip : Plain.Stripper} {p : Plain}
    (h : Plain.ofSource flat strip = .ok p) :
    strip flat = .ok (p.text, p.map) ∧ p.lined = .ofString p.text := by
  obtain ⟨⟨text, map⟩, hstrip, h⟩ := Results.bind_eq_ok.1 h
  obtain ⟨made, hmade, h⟩ := Results.bind_eq_ok.1 h
  split at h
  · simp at h
  · obtain rfl := Except.ok.inj h
    obtain ⟨hlined, hmap⟩ := Plain.ofMap_eq_ok hmade
    have htext : made.text = text := by rw [Plain.text, hlined, LinedText.text_ofString]
    rw [htext, hmap]
    exact ⟨hstrip, hlined⟩

namespace Document

theorem ofParts_eq_ok {source : Source} {plain : Plain} {d : Document}
    (h : ofParts source plain = .ok d) : d.source = source ∧ d.plain = plain := by
  unfold ofParts at h
  split at h
  · simp at h
  · obtain rfl := Except.ok.inj h
    exact ⟨rfl, rfl⟩

/-- A document holds what was made of a flat source. -/
structure BuiltFrom (options : Plain.Options) (flat : Flat) (d : Document) : Prop where
  flat_eq : d.source.flat = .ofString flat.text
  files_eq : d.source.files = flat.files.map fun copy => ⟨copy.path, .ofString copy.content⟩
  origins_eq : d.source.origins = flat.origins
  lined_eq : d.plain.lined = .ofString d.text
  strip_eq : Plain.strip options flat.text = .ok (d.text, d.plain.map)

namespace BuiltFrom

variable {options : Plain.Options} {flat : Flat} {d : Document}

theorem flatText (h : BuiltFrom options flat d) : d.flatText = flat.text := by
  rw [Document.flatText, h.flat_eq, LinedText.text_ofString]

theorem file? (h : BuiltFrom options flat d) {id : Nat} {copy : FileCopy}
    (hcopy : flat.files[id]? = some copy) :
    d.source.file? id = some ⟨copy.path, .ofString copy.content⟩ := by
  rw [Source.file?, h.files_eq, Array.getElem?_map, hcopy, Option.map_some]

theorem content? (h : BuiltFrom options flat d) {copy : FileCopy} (hcopy : copy ∈ flat.files)
    (hsame : ∀ other ∈ flat.files, other.path = copy.path → other.content = copy.content) :
    d.source.content? copy.path = some copy.content := by
  have hmem : (⟨copy.path, .ofString copy.content⟩ : SourceFile) ∈ d.source.files := by
    rw [h.files_eq]
    exact Array.mem_map.2 ⟨copy, hcopy, rfl⟩
  have hsome : (d.source.fileAt? copy.path).isSome := by
    rw [Source.fileAt?, Array.find?_isSome]
    exact ⟨_, hmem, by simp⟩
  obtain ⟨found, hfound⟩ := Option.isSome_iff_exists.1 hsome
  have hpath := Array.find?_some hfound
  have hfoundMem := Array.mem_of_find?_eq_some hfound
  rw [h.files_eq] at hfoundMem
  obtain ⟨other, hother, rfl⟩ := Array.mem_map.1 hfoundMem
  rw [Source.content?, hfound, Option.map_some, LinedText.text_ofString,
    hsame other hother (by simpa using hpath)]

end BuiltFrom

theorem exists_builtFrom {files : FileSet} {settings : Settings} {main : String} {d : Document}
    (h : build files settings main = .ok d) :
    ∃ flat, Flat.expand files settings.flatten main = .ok flat ∧
      BuiltFrom settings.plain flat d := by
  obtain ⟨source, hsource, h⟩ := Results.bind_eq_ok.1 h
  obtain ⟨plain, hplain, h⟩ := Results.bind_eq_ok.1 h
  obtain ⟨made, hmade, h⟩ := Results.bind_eq_ok.1 h
  obtain rfl := Results.pure_eq_ok.1 h
  obtain ⟨flat, hflat, hsource⟩ := Results.bind_eq_ok.1 hsource
  obtain ⟨htext, hfiles, horigins⟩ := Source.ofFlat_eq_ok hsource
  obtain ⟨hstrip, hlined⟩ := Plain.ofSource_eq_ok hplain
  obtain ⟨rfl, rfl⟩ := ofParts_eq_ok hmade
  refine ⟨flat, hflat, htext, hfiles, horigins, hlined, ?_⟩
  rw [htext, LinedText.text_ofString] at hstrip
  exact Results.mapError_eq_ok.1 hstrip

end Document

end LatexOrigins
