import LatexOrigins.Document.Source
import LatexOrigins.Proofs.Flat.Numbering

/-!
# Numbers and nesting

A file keeps the number that it is given when the run enters it for the first time. So of
two files, one of which is entered while the other is open, the open one has the smaller
number exactly if it was the first of the two to be entered, as it is whenever the other
one is entered for the first time. A file that is included again from a file that came
later has the smaller number although it lies deeper.
-/

namespace LatexOrigins.Flat

variable {files : FileSet} {options : Options} {main path root : String} {id number : Nat}
  {flat final : Flat} {entry first next : Entry}

/-! ## Registered files -/

theorem idOf?_injective {other : String} (h : flat.idOf? path = some id)
    (hother : flat.idOf? other = some id) : path = other :=
  Option.some.inj ((getElem?_paths h).symm.trans (getElem?_paths hother))

theorem lt_length_paths_iff (hgrown : flat.files.toList <+: final.files.toList)
    (h : final.idOf? path = some id) : id < flat.paths.length ↔ path ∈ flat.paths := by
  constructor
  · intro hlt
    have hsame := (paths_grown hgrown).getElem hlt
    have hpath := (List.getElem?_eq_some_iff.1 (getElem?_paths h)).2
    rw [← hpath, ← hsame]
    exact List.getElem_mem hlt
  · intro hmem
    obtain ⟨early, hearly⟩ := exists_idOf? hmem
    obtain rfl := Option.some.inj ((idOf?_of_grown hearly hgrown).symm.trans h)
    exact (List.getElem?_eq_some_iff.1 (getElem?_paths hearly)).1

theorem enter_of_not_mem (content : String) (h : path ∉ flat.paths) :
    (flat.enter path content).2 = flat.paths.length := by
  rw [enter, idOf?_eq_none_iff.2 h, paths, List.length_map, Array.length_toList]

/-! ## Entries -/

theorem Entered.exists_number (h : Entered files options main entry)
    (hflat : expand files options main = .ok flat) :
    ∃ content, flat.idOf? entry.path = some (entry.flat.enter entry.path content).2 := by
  obtain ⟨content, -, hgrown⟩ := h.exists_content hflat
  exact ⟨content, idOf?_of_grown (idOf?_enter entry.flat entry.path content) hgrown⟩

theorem Entered.idOf?_of_first (h : Entered files options main first)
    (hflat : expand files options main = .ok flat) (hfirst : first.path ∉ first.flat.paths) :
    flat.idOf? first.path = some first.flat.paths.length := by
  obtain ⟨content, hnumber⟩ := h.exists_number hflat
  rw [hnumber, enter_of_not_mem content hfirst]

theorem Entered.mem_paths (h : Entered files options main entry) :
    ∀ outer ∈ entry.opened, outer ∈ entry.flat.paths := by
  refine h.induct (motive := fun entry => ∀ outer ∈ entry.opened, outer ∈ entry.flat.paths)
    (fun _ _ _ hopened => absurd hopened List.not_mem_nil) fun hleads hopened => ?_
  cases hleads with
  | @follow limit start stop opened flat middle path content name target front rest hopen hread
      hmoves hfront hname htarget =>
      intro outer houter
      refine (paths_grown (foldlM_grown expandFile_grown hfront)).subset (mem_paths_enter.2 ?_)
      exact (List.mem_cons.1 houter).imp id (hopened outer)

/-- A file that is registered in the end has been entered for a first time. -/
theorem exists_first (hflat : expand files options main = .ok flat) (h : path ∈ flat.paths) :
    ∃ first, Entered files options main first ∧ first.path = path ∧ path ∉ first.flat.paths := by
  obtain ⟨root, hroot, -⟩ := Results.bind_eq_ok.1 hflat
  rw [(follows_of_expand hflat hroot).paths_eq, List.mem_eraseDups, mem_entered] at h
  obtain ⟨past, future, hpast, hfirst⟩ := List.eq_append_cons_of_mem h
  obtain ⟨first, hentered, hpath, hfollows⟩ := exists_entered_of_event hflat hroot hpast
  refine ⟨first, hentered, hpath, ?_⟩
  rwa [hfollows.paths_eq, List.mem_eraseDups, mem_entered]

/-- A file that is open has the smaller number than one that is entered from it, directly
or not, exactly if the run enters it for the first time when the other one has not been
entered yet. So it has if the other one is entered for the first time. -/
theorem number_lt_iff (h : expand files options main = .ok flat) :
    ∀ entry, Entered files options main entry → ∀ outer ∈ entry.opened,
      ∃ i j, flat.idOf? outer = some i ∧ flat.idOf? entry.path = some j ∧ i ≠ j ∧
        (i < j ↔ ∃ first, Entered files options main first ∧ first.path = outer ∧
          outer ∉ first.flat.paths ∧ entry.path ∉ first.flat.paths) ∧
        (entry.path ∉ entry.flat.paths → i < j) := by
  intro entry hentered outer houter
  have houter_mem := hentered.mem_paths outer houter
  have hregistered := (paths_grown (hentered.grown h)).subset houter_mem
  obtain ⟨i, hi⟩ := exists_idOf? hregistered
  obtain ⟨content, hj⟩ := hentered.exists_number h
  generalize (entry.flat.enter entry.path content).2 = j at hj
  have hne : i ≠ j := by
    rintro rfl
    exact hentered.not_mem_opened h (idOf?_injective hi hj ▸ houter)
  -- Whenever the open file is entered for the first time, it gets its number `i`.
  have hfirst {first : Entry} (hfirst : Entered files options main first)
      (hpath : first.path = outer) (hnew : outer ∉ first.flat.paths) :
      i < j ↔ entry.path ∉ first.flat.paths := by
    subst hpath
    have hlength := Option.some.inj (hi.symm.trans (hfirst.idOf?_of_first h hnew))
    rw [← lt_length_paths_iff (hfirst.grown h) hj, hlength]
    omega
  refine ⟨i, j, hi, hj, hne, ⟨fun hlt => ?_, ?_⟩, fun hnew => ?_⟩
  · obtain ⟨first, hfirst_entered, hpath, hnew⟩ := exists_first h hregistered
    exact ⟨first, hfirst_entered, hpath, hnew, (hfirst hfirst_entered hpath hnew).1 hlt⟩
  · rintro ⟨first, hfirst_entered, hpath, hnew, hother⟩
    exact (hfirst hfirst_entered hpath hnew).2 hother
  · have hlength := Option.some.inj (hj.symm.trans (hentered.idOf?_of_first h hnew))
    exact hlength ▸ (lt_length_paths_iff (hentered.grown h) hi).2 houter_mem

/-- A file that the main file includes, and then another one that includes it again. -/
def crossedFiles : MemoryFiles :=
  .ofList "/" [("main.tex", "\\input\x7ba\x7d\\input\x7bb\x7d"), ("a.tex", "AA"),
    ("b.tex", "B\\input\x7ba\x7dB")]

def crossedMain : FileCopy := ⟨"/main.tex", "\\input\x7ba\x7d\\input\x7bb\x7d"⟩

def crossedInner : FileCopy := ⟨"/a.tex", "AA"⟩

def crossedOuter : FileCopy := ⟨"/b.tex", "B\\input\x7ba\x7dB"⟩

def crossedFlat : Flat where
  text := "AABAAB"
  files := #[crossedMain, crossedInner, crossedOuter]
  origins := #[some ⟨1, 0⟩, some ⟨1, 1⟩, some ⟨2, 0⟩, some ⟨1, 0⟩, some ⟨1, 1⟩, some ⟨2, 10⟩]

/-- The inner file is entered from the outer one, which came later. -/
def crossedEntry : Entry where
  limit := 1
  opened := ["/b.tex", "/main.tex"]
  flat := ⟨"AAB", #[crossedMain, crossedInner, crossedOuter],
    #[some ⟨1, 0⟩, some ⟨1, 1⟩, some ⟨2, 0⟩]⟩
  path := "/a.tex"

theorem expand_crossedFiles :
    expand crossedFiles.toFileSet .standard "main.tex" = .ok crossedFlat := by
  decide +kernel

theorem entered_crossedEntry :
    Entered crossedFiles.toFileSet .standard "main.tex" crossedEntry := by
  have hroot : findFile crossedFiles.toFileSet "main.tex" none = .ok "/main.tex" := by
    decide +kernel
  have hmain : crossedFiles.toFileSet.read "/main.tex" = .ok crossedMain.content := by
    decide +kernel
  have hmoves : moves .standard crossedMain.content = [.follow 7 8] ++ .follow 16 17 :: [] := by
    decide +kernel
  have hmiddle : [Move.follow 7 8].foldlM
      (perform crossedFiles.toFileSet
        (expandFile crossedFiles.toFileSet .standard 2 ["/main.tex"]) "/main.tex"
        (empty.enter "/main.tex" crossedMain.content).2 crossedMain.content)
      (empty.enter "/main.tex" crossedMain.content).1 =
        .ok ⟨"AA", #[crossedMain, crossedInner], #[some ⟨1, 0⟩, some ⟨1, 1⟩]⟩ := by
    decide +kernel
  have hname : Text.slice? crossedMain.content 16 17 = some "b" := by decide +kernel
  have houter : crossedFiles.toFileSet.read "/b.tex" = .ok crossedOuter.content := by
    decide +kernel
  have hnext : moves .standard crossedOuter.content =
      [.keep 0 1] ++ .follow 8 9 :: [.keep 10 11] := by
    decide +kernel
  have hinner : Text.slice? crossedOuter.content 8 9 = some "a" := by decide +kernel
  exact ⟨"/main.tex", hroot, .head
    (.follow (by decide) hmain hmoves hmiddle hname (by decide +kernel))
    (.single (.follow (by decide) houter hnext (by decide +kernel) hinner (by decide +kernel)))⟩

/-- The main file is entered before the inner file, the outer file after it. -/
theorem number_lt_crossedFlat :
    expand crossedFiles.toFileSet .standard "main.tex" = .ok crossedFlat ∧
      Entered crossedFiles.toFileSet .standard "main.tex" crossedEntry ∧
      "/main.tex" ∈ crossedEntry.opened ∧
      ∃ i j, crossedFlat.idOf? "/main.tex" = some i ∧ crossedFlat.idOf? "/a.tex" = some j ∧
        i < j := by
  have hmem : "/main.tex" ∈ crossedEntry.opened := by decide
  obtain ⟨i, j, hi, hj, -, hlt, -⟩ :=
    number_lt_iff expand_crossedFiles crossedEntry entered_crossedEntry "/main.tex" hmem
  refine ⟨expand_crossedFiles, entered_crossedEntry, hmem, i, j, hi, hj, hlt.2 ?_⟩
  exact ⟨⟨3, [], empty, "/main.tex"⟩, ⟨"/main.tex", by decide +kernel, .refl⟩, rfl, by decide,
    by decide⟩

/-- The inner file is entered while the outer one is open and has the smaller number. So
a range that both take part in counts as one of the outer file. -/
theorem not_nested_crossedFlat :
    expand crossedFiles.toFileSet .standard "main.tex" = .ok crossedFlat ∧
      (¬ ∀ entry, Entered crossedFiles.toFileSet .standard "main.tex" entry →
        ∀ outer ∈ entry.opened, ∃ i j, crossedFlat.idOf? outer = some i ∧
          crossedFlat.idOf? entry.path = some j ∧ i < j) ∧
      (((Source.ofFlat crossedFlat).toOption.bind fun s => (s.fileSpan 2 6).toOption.join).map
        fun span => (span.1.path, span.1.position.offset, span.2.position.offset)) =
          some ("/b.tex", 0, 11) := by
  refine ⟨expand_crossedFiles, fun h => ?_, by decide +kernel⟩
  obtain ⟨i, j, hi, hj, hlt⟩ := h crossedEntry entered_crossedEntry "/b.tex" (by decide)
  have hnumbers : crossedFlat.idOf? "/b.tex" = some 2 ∧
      crossedFlat.idOf? crossedEntry.path = some 1 := by
    decide +kernel
  obtain rfl := Option.some.inj (hi.symm.trans hnumbers.1)
  obtain rfl := Option.some.inj (hj.symm.trans hnumbers.2)
  exact absurd hlt (by decide)

end LatexOrigins.Flat
