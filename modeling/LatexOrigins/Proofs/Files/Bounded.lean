import LatexOrigins.Files.Disk
import LatexOrigins.Proofs.Files.Walk

/-!
# How many paths can be read

Inclusions are resolved to normalized paths, and a chain of files that include each
other is bounded by how many of these can be read. In a tree of files a normalized path
is known from the place that it leads to, from whether it starts at the root, and from
whether it starts with a `..`, so a file has at most four. Of a disk that is examined bit
by bit only paths that have been examined can be read.
-/

namespace LatexOrigins

namespace Path

variable {start : List String}

/-- The normalized path that leads to a place: from the root or from a directory, and
with so many `..` in front. -/
def spelling (start place : List String) (absolute : Bool) (ups : Nat) : String :=
  let base := (if absolute then [] else start).drop ups
  Route.toText ⟨absolute, place.take (place.length - base.length) ++ List.replicate ups ".."⟩

def spellings (start place : List String) : List String :=
  [spelling start place false 0, spelling start place false 1, spelling start place true 0,
    spelling start place true 1]

theorem normalize_eq_spelling (start : List String) (path : String) :
    normalize path = spelling start (walk start (normalize path)) (isAbsolute path)
      (climb (steps path) % 2) := by
  have hnames (names base : List String) :
      (names ++ base).take ((names ++ base).length - base.length) = names := by
    rw [List.length_append, Nat.add_sub_cancel, List.take_left]
  rw [walk_normalize, spelling, hnames, normalize_eq_toText, routeOf]

theorem normalize_mem_spellings (start : List String) (path : String) :
    normalize path ∈ spellings start (walk start (normalize path)) := by
  have hpath := normalize_eq_spelling start path
  generalize walk start (normalize path) = place at hpath
  rw [hpath, spellings]
  rcases Nat.mod_two_eq_zero_or_one (climb (steps path)) with heven | hodd
  · rw [heven]
    cases isAbsolute path <;> simp
  · rw [hodd]
    cases isAbsolute path <;> simp

end Path

/-! ## Bounded sets of files -/

/-- Of the paths that inclusions are resolved to, no more can be read than the depth
says. -/
def FileSet.Bounded (files : FileSet) : Prop :=
  ∃ paths : List String, paths.length ≤ files.depth ∧
    ∀ path text, files.entry? (Path.normalize path) = some (.content text) →
      Path.normalize path ∈ paths

/-- The files of a disk are bounded, whichever directory is their root. -/
def Disk.Bounded (disk : Disk) : Prop := ∀ root, (disk.toFileSet root).Bounded

theorem MemoryFiles.mem_paths {files : MemoryFiles} {path : String}
    (h : files.toFileSet.contains path = true) : path ∈ files.entries.map (·.1) := by
  obtain ⟨entry, hentry⟩ := Option.isSome_iff_exists.1 h
  obtain ⟨content, hcontent, -⟩ := Option.map_eq_some_iff.1 hentry
  obtain ⟨found, hfound, -⟩ := Option.map_eq_some_iff.1 hcontent
  have hpath : found.1 = path := by simpa using List.find?_some hfound
  exact List.mem_map.2 ⟨found, List.mem_of_find?_eq_some hfound, hpath⟩

theorem MemoryFiles.bounded (files : MemoryFiles) : files.toFileSet.Bounded := by
  refine ⟨files.entries.map (·.1), ?_, fun path text h => ?_⟩
  · rw [List.length_map]
    exact Nat.le_refl _
  · apply mem_paths
    rw [FileSet.contains, h]
    rfl

theorem Snapshot.bounded (snapshot : Snapshot) : snapshot.toDisk.Bounded := by
  intro root
  refine ⟨snapshot.known.map (·.1), ?_, fun path text h => ?_⟩
  · rw [List.length_map]
    exact Nat.le_refl _
  · simp only [Disk.toFileSet, Snapshot.toDisk] at h
    split at h
    · next known found hfound =>
      have hpath : known = Path.normalize path := by simpa using List.find?_some hfound
      exact List.mem_map.2 ⟨_, List.mem_of_find?_eq_some hfound, hpath⟩
    · cases h

namespace FileTree

variable {tree : FileTree} {place place' : List String}

theorem step?_eq_some {piece : List Char} (h : tree.step? place piece = some place') :
    place'.reverse = (Path.ofPiece piece).elim place.reverse (Path.visit place.reverse) := by
  unfold step? at h
  unfold Path.ofPiece
  split at h
  · cases h
  · split at h
    · next hnone =>
      obtain rfl := Option.some.inj h
      rw [if_pos hnone]
      rfl
    · next hsome =>
      rw [if_neg hsome]
      split at h
      · next hup =>
        obtain rfl := Option.some.inj h
        rw [if_pos hup, ← List.tail_reverse]
        rfl
      · next hname =>
        obtain rfl := Option.some.inj h
        rw [if_neg hname, List.reverse_append]
        rfl

theorem foldlM_step? {pieces : List (List Char)} (h : pieces.foldlM tree.step? place = some place') :
    place'.reverse = (pieces.filterMap Path.ofPiece).foldl Path.visit place.reverse := by
  induction pieces generalizing place with
  | nil =>
      obtain rfl := Option.some.inj h
      rfl
  | cons piece pieces ih =>
      rw [List.foldlM_cons] at h
      obtain ⟨next, hnext, h⟩ := Option.bind_eq_some_iff.1 h
      rw [ih h, step?_eq_some hnext, List.filterMap_cons]
      cases Path.ofPiece piece with
      | none => rfl
      | some component => rfl

/-- A path that leads anywhere in a tree leads where it goes on paper. -/
theorem place?_eq_some {path : String} (h : tree.place? path = some place) :
    place.reverse = Path.walk tree.current.reverse path := by
  unfold place? at h
  split at h
  · cases h
  · rw [foldlM_step? h, Path.walk_eq, Path.steps]
    cases Path.isAbsolute path with
    | false => rfl
    | true => rfl

theorem bounded (tree : FileTree) : tree.toDisk.Bounded := by
  intro root
  refine ⟨tree.files.flatMap fun file => Path.spellings tree.current.reverse file.1.reverse,
    ?_, ?_⟩
  · have hfour (file : List String × FileEntry) :
        (Path.spellings tree.current.reverse file.1.reverse).length = 4 := rfl
    rw [List.length_flatMap]
    simp only [hfour, List.map_const', List.sum_replicate_nat]
    change tree.files.length * 4 ≤ 4 * tree.files.length
    omega
  · intro path text h
    obtain ⟨place, hplace, hentry⟩ := Option.bind_eq_some_iff.1 h
    obtain ⟨file, hfile, -⟩ := Option.map_eq_some_iff.1 hentry
    have hsame : file.1 = place := by simpa using List.find?_some hfile
    refine List.mem_flatMap.2 ⟨file, List.mem_of_find?_eq_some hfile, ?_⟩
    rw [hsame, place?_eq_some hplace]
    exact Path.normalize_mem_spellings _ path

end FileTree

end LatexOrigins
