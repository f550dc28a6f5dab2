import LatexOrigins.Files.FileSet
import LatexOrigins.Proofs.Files.Walk

/-!
# Names and the files they stand for

A path that is normalized stays as it is when it is normalized again. Files are put in and
looked up under normalized paths, so two spellings of a path mean one file: a name that is
resolved gives the path of a file that was put in, with the text that was put in last, and
where the root is absolute that path stands for itself from then on.
-/

namespace LatexOrigins

namespace Path

/-! ## Normalizing twice -/

theorem climb_names (names : List String) : climb (names.map .name) = 0 := by
  induction names with
  | nil => rfl
  | cons text names ih => rw [List.map_cons, climb, ih]

theorem climb_ups (count : Nat) (parts : List Component) :
    climb (List.replicate count .up ++ parts) = count + climb parts := by
  induction count with
  | zero => rw [List.replicate_zero, List.nil_append, Nat.zero_add]
  | succ count ih =>
      rw [List.replicate_succ, List.cons_append, climb, ih, Nat.add_right_comm]

theorem routeOf_normalize (path : String) : routeOf (normalize path) = routeOf path := by
  have hclimb : climb (steps (normalize path)) % 2 = climb (steps path) % 2 := by
    rw [steps_normalize, climb_ups, climb_names, Nat.add_zero, Nat.mod_mod]
  have hnames : (steps (normalize path)).foldl visit [] = (steps path).foldl visit [] := by
    rw [steps_normalize, List.foldl_append, foldl_visit_ups, foldl_visit_names, List.drop_nil,
      List.append_nil, List.reverse_reverse]
  rw [routeOf, routeOf, isAbsolute_normalize, hclimb, hnames]

theorem normalize_normalize (path : String) : normalize (normalize path) = normalize path := by
  rw [normalize_eq_toText, routeOf_normalize, ← normalize_eq_toText]

/-! ## Absolute paths -/

theorem join_of_isAbsolute {base path : String} (h : isAbsolute path = true) :
    join base path = path := by
  rw [join, if_pos h]

theorem isAbsolute_append {base : String} (h : isAbsolute base = true) (rest : String) :
    isAbsolute (base ++ rest) = true := by
  rw [isAbsolute, decide_eq_true_eq] at h ⊢
  rw [String.toList_append, List.head?_append, h, Option.some_or]

theorem isAbsolute_join {base : String} (h : isAbsolute base = true) (path : String) :
    isAbsolute (join base path) = true := by
  unfold join
  split
  · next hpath => exact hpath
  · split
    · next hempty =>
      rw [hempty] at h
      cases h
    · split
      · exact isAbsolute_append h path
      · exact isAbsolute_append (isAbsolute_append h "/") path

end Path

/-! ## Putting files in -/

namespace MemoryFiles

/-- The path under which a file is put in, or looked for, in a directory. -/
def key (directory path : String) : String := Path.normalize (Path.join directory path)

/-- Some file was put in under a path. -/
def Inserted (root : String) (inserts : List (String × String)) (path : String) : Prop :=
  ∃ file ∈ inserts, key root file.1 = path

/-- The text that was put in last under a path. -/
def Latest (root : String) (inserts : List (String × String)) (path text : String) : Prop :=
  ∃ before name after, inserts = before ++ (name, text) :: after ∧ key root name = path ∧
    ∀ file ∈ after, key root file.1 ≠ path

variable {root path text name : String} {inserts : List (String × String)}
  {includer : Option String}

theorem foldl_insert (files : MemoryFiles) (inserts : List (String × String)) :
    inserts.foldl (fun files file => files.insert file.1 file.2) files =
      ⟨files.root, (inserts.map fun file => (key files.root file.1, file.2)).reverse ++
        files.entries⟩ := by
  induction inserts generalizing files with
  | nil => rfl
  | cons file rest ih =>
      rw [List.foldl_cons, ih, List.map_cons, List.reverse_cons, List.append_assoc,
        List.singleton_append]
      rfl

theorem ofList_eq (root : String) (inserts : List (String × String)) : ofList root inserts =
    ⟨root, (inserts.map fun file => (key root file.1, file.2)).reverse⟩ := by
  rw [ofList, foldl_insert]
  simp only [empty, List.append_nil]

theorem find?_ofList (root : String) (inserts : List (String × String)) (path : String) :
    (ofList root inserts).find? path =
      (inserts.reverse.find? fun file => key root file.1 = path).map (·.2) := by
  rw [ofList_eq, find?, ← List.map_reverse, List.find?_map, Option.map_map]
  simp only [Function.comp_def]

/-- A file hides those that were put in before it under the same path. -/
theorem find?_eq_some_iff :
    (ofList root inserts).find? path = some text ↔ Latest root inserts path text := by
  rw [find?_ofList, Option.map_eq_some_iff]
  simp only [List.find?_eq_some_iff_append]
  constructor
  · rintro ⟨⟨name, text⟩, ⟨hname, after, before, hinserts, hafter⟩, rfl⟩
    refine ⟨before.reverse, name, after.reverse, ?_, of_decide_eq_true hname, ?_⟩
    · rw [← List.reverse_reverse inserts, hinserts]
      simp
    · intro file hfile
      simpa using hafter file (List.mem_reverse.1 hfile)
  · rintro ⟨before, name, after, rfl, hname, hafter⟩
    refine ⟨(name, text), ⟨decide_eq_true hname, after.reverse, before.reverse, by simp, ?_⟩, rfl⟩
    intro file hfile
    simpa using hafter file (List.mem_reverse.1 hfile)

theorem find?_isSome_iff :
    ((ofList root inserts).find? path).isSome = true ↔ Inserted root inserts path := by
  rw [find?_ofList, Option.isSome_map, List.find?_isSome]
  simp only [List.mem_reverse, decide_eq_true_eq]
  rfl

theorem contains_iff :
    (ofList root inserts).toFileSet.contains path = true ↔ Inserted root inserts path := by
  rw [← find?_isSome_iff, FileSet.contains, toFileSet, Option.isSome_map]

theorem read_eq_ok_iff :
    (ofList root inserts).toFileSet.read path = .ok text ↔ Latest root inserts path text := by
  have hentry : (ofList root inserts).toFileSet.entry? path =
      ((ofList root inserts).find? path).map .content := rfl
  rw [← find?_eq_some_iff, FileSet.read, hentry]
  cases (ofList root inserts).find? path <;> simp

/-! ## Resolving names -/

/-- The paths that a name may stand for, one by one: below the root, then in the directory
of the file that mentions it, and each time with `.tex` appended if the name has no
extension. -/
def tried (root name : String) (includer : Option String) : List String :=
  match Path.extension? name, includer.bind Path.parent? with
  | some _, none => [key root name]
  | none, none => [key root name, key root (name ++ ".tex")]
  | some _, some directory => [key root name, key directory name]
  | none, some directory =>
    [key root name, key root (name ++ ".tex"), key directory name, key directory (name ++ ".tex")]

theorem candidates_eq (root : String) (inserts : List (String × String)) (name : String)
    (includer : Option String) :
    (ofList root inserts).toFileSet.candidates name includer = tried root name includer := by
  have hroot : (ofList root inserts).toFileSet.root = root := by rw [ofList_eq, toFileSet]
  rw [FileSet.candidates, FileSet.directories, hroot, FileSet.spellings, tried]
  cases Path.extension? name <;> cases includer.bind Path.parent? <;> rfl

theorem resolve_eq_none_iff : (ofList root inserts).toFileSet.resolve name includer = none ↔
    ∀ path ∈ tried root name includer, ¬ Inserted root inserts path := by
  rw [FileSet.resolve, candidates_eq, List.find?_eq_none]
  simp only [contains_iff]

theorem resolve_eq_some_iff : (ofList root inserts).toFileSet.resolve name includer = some path ↔
    Inserted root inserts path ∧ ∃ before after,
      tried root name includer = before ++ path :: after ∧
        ∀ other ∈ before, ¬ Inserted root inserts other := by
  rw [FileSet.resolve, candidates_eq, List.find?_eq_some_iff_append]
  simp only [contains_iff, Bool.not_eq_true', ← Bool.not_eq_true]

theorem Inserted.normalize_eq (h : Inserted root inserts path) : Path.normalize path = path := by
  obtain ⟨file, -, rfl⟩ := h
  exact Path.normalize_normalize _

theorem Inserted.isAbsolute (h : Inserted root inserts path) (hroot : Path.isAbsolute root = true) :
    Path.isAbsolute path = true := by
  obtain ⟨file, -, rfl⟩ := h
  rw [key, Path.isAbsolute_normalize, Path.isAbsolute_join hroot]

theorem Inserted.exists_latest (h : Inserted root inserts path) :
    ∃ text, Latest root inserts path text := by
  obtain ⟨text, htext⟩ := Option.isSome_iff_exists.1 (find?_isSome_iff.2 h)
  exact ⟨text, find?_eq_some_iff.1 htext⟩

theorem exists_tried (root name : String) (includer : Option String) :
    ∃ others, tried root name includer = key root name :: others := by
  unfold tried
  split <;> exact ⟨_, rfl⟩

theorem Inserted.resolve_self (h : Inserted root inserts path)
    (hroot : Path.isAbsolute root = true) (includer : Option String) :
    (ofList root inserts).toFileSet.resolve path includer = some path := by
  obtain ⟨others, hothers⟩ := exists_tried root path includer
  have hkey : key root path = path := by
    rw [key, Path.join_of_isAbsolute (h.isAbsolute hroot), h.normalize_eq]
  rw [hkey] at hothers
  exact resolve_eq_some_iff.2 ⟨h, [], others, hothers, by simp⟩

/-- How names are resolved, whatever files were put in. A name stands for the first of its
paths under which a file was put in, and for none if there is no such file. Its path is
normalized and has the text that was put in last, and where the root is absolute the path
stands for itself. -/
theorem names_resolved (root : String) (inserts : List (String × String)) (name : String)
    (includer : Option String) :
    (∀ path, Path.normalize (Path.normalize path) = Path.normalize path) ∧
    ((ofList root inserts).toFileSet.resolve name includer = none ↔
      ∀ path ∈ tried root name includer, ¬ Inserted root inserts path) ∧
    ∀ path,
      ((ofList root inserts).toFileSet.resolve name includer = some path ↔
        Inserted root inserts path ∧ ∃ before after,
          tried root name includer = before ++ path :: after ∧
            ∀ other ∈ before, ¬ Inserted root inserts other) ∧
      ((ofList root inserts).toFileSet.resolve name includer = some path →
        Path.normalize path = path ∧ (ofList root inserts).toFileSet.contains path = true ∧
        (∃ text, Latest root inserts path text ∧
          (ofList root inserts).toFileSet.read path = .ok text) ∧
        (Path.isAbsolute root = true → ∀ other,
          (ofList root inserts).toFileSet.resolve path other = some path)) := by
  refine ⟨Path.normalize_normalize, resolve_eq_none_iff, fun path => ⟨resolve_eq_some_iff, ?_⟩⟩
  intro hpath
  have hinserted := (resolve_eq_some_iff.1 hpath).1
  obtain ⟨text, htext⟩ := hinserted.exists_latest
  exact ⟨hinserted.normalize_eq, contains_iff.2 hinserted, ⟨text, htext, read_eq_ok_iff.2 htext⟩,
    fun hroot => hinserted.resolve_self hroot⟩

/-- Files of which two are put in under one path, in different spellings. -/
def respelled : List (String × String) :=
  [("a/../s.tex", "old"), ("./s.tex", "new"), ("chapters/s.tex", "other")]

/-- The file below the root is found before the one beside the file that mentions it, and
it has the text that was put in last. -/
theorem names_resolved_respelled :
    (ofList "/" respelled).toFileSet.resolve "s" (some "/chapters/part.tex") = some "/s.tex" ∧
      Path.isAbsolute "/" = true ∧ Path.normalize "/s.tex" = "/s.tex" ∧
      Latest "/" respelled "/s.tex" "new" ∧
      ∀ other, (ofList "/" respelled).toFileSet.resolve "/s.tex" other = some "/s.tex" := by
  have hresolve : (ofList "/" respelled).toFileSet.resolve "s" (some "/chapters/part.tex") =
      some "/s.tex" := by
    decide +kernel
  have hfind : (ofList "/" respelled).find? "/s.tex" = some "new" := by decide +kernel
  have hread : (ofList "/" respelled).toFileSet.read "/s.tex" = .ok "new" :=
    read_eq_ok_iff.2 (find?_eq_some_iff.1 hfind)
  obtain ⟨-, -, hpath⟩ := names_resolved "/" respelled "s" (some "/chapters/part.tex")
  obtain ⟨hnormalized, -, ⟨text, hlatest, htext⟩, hself⟩ := (hpath "/s.tex").2 hresolve
  obtain rfl : text = "new" := Except.ok.inj (htext.symm.trans hread)
  exact ⟨hresolve, by decide, hnormalized, hlatest, hself (by decide)⟩

end MemoryFiles

end LatexOrigins
