import LatexOrigins.Proofs.Files.Bounded
import LatexOrigins.Proofs.Flat.Settled

/-!
# Flattening fails only at files

Each piece that is cut out of a content lies between cuts, and settled moves take nothing
back. The files that are open could be read, and differ from each other, so if no more
paths can be read than the depth says, the depth is enough. What is left are a name that
stands for no file, a file that is open already, and a file that cannot be read. Files in
memory can always be read.
-/

namespace LatexOrigins

/-- An inclusion that cannot be followed. -/
inductive LoadError.AtInclusion : LoadError → Prop where
  | fileNotFound {name includer : String} : AtInclusion (.fileNotFound name includer)
  | cyclicInclusion {path : String} {chain : List String} : AtInclusion (.cyclicInclusion path chain)

/-- An inclusion that cannot be followed, or one of the files that are there, which
cannot be read. -/
inductive LoadError.AtFile (files : FileSet) : LoadError → Prop where
  | inclusion {e : LoadError} (h : e.AtInclusion) : AtFile files e
  | unreadable {path : String} (h : files.entry? path = some .unreadable) :
      AtFile files (.unreadable path)

namespace Flat

open LoadError (AtInclusion AtFile)
open Markup

variable {files : FileSet} {options : Options} {path : String} {paths opened : List String}
  {flat : Flat} {e : LoadError} {limit : Nat}

theorem entry?_of_read {content : String} (h : files.read path = .ok content) :
    files.entry? path = some (.content content) := by
  unfold FileSet.read at h
  split at h
  · next hentry =>
    obtain rfl := Except.ok.inj h
    exact hentry
  · cases h

theorem atFile_of_read (hpath : files.contains path = true) (h : files.read path = .error e) :
    e.AtFile files := by
  obtain ⟨entry, hentry⟩ := Option.isSome_iff_exists.1 hpath
  rw [FileSet.read, hentry] at h
  cases entry with
  | content => cases h
  | unreadable => exact Except.error.inj h ▸ AtFile.unreadable hentry

theorem contains_of_findFile {name target : String} {includer : Option String}
    (h : findFile files name includer = .ok target) : files.contains target = true := by
  unfold findFile at h
  split at h
  · next path hpath =>
    obtain rfl := Except.ok.inj h
    exact List.find?_some hpath
  · cases h

theorem exists_normalize_of_findFile {name target : String} {includer : Option String}
    (h : findFile files name includer = .ok target) : ∃ path, target = Path.normalize path := by
  unfold findFile at h
  split at h
  · next path hpath =>
    obtain rfl := Except.ok.inj h
    obtain ⟨directory, -, hspelling⟩ := List.mem_flatMap.1 (List.mem_of_find?_eq_some hpath)
    obtain ⟨spelling, -, rfl⟩ := List.mem_map.1 hspelling
    exact ⟨Path.join directory spelling, rfl⟩
  · cases h

theorem findFile_eq_error {name : String} {includer : Option String}
    (h : findFile files name includer = .error e) : e.AtInclusion := by
  unfold findFile at h
  split at h
  · cases h
  · obtain rfl := Except.error.inj h
    exact AtInclusion.fileNotFound

theorem perform_eq_error {enter : Flat → String → Except LoadError Flat} {content : String}
    {id : Nat} {move : Move}
    (henter : ∀ {name target}, findFile files name (some path) = .ok target →
      enter flat target = .error e → e.AtFile files)
    (hmove : Clean content move)
    (h : perform files enter path id content flat move = .error e) : e.AtFile files := by
  cases hmove with
  | keep hstart hstop hle =>
      obtain ⟨flat', hkeep⟩ := exists_keep flat id hstart hstop hle
      rw [perform, hkeep] at h
      cases h
  | comment => cases h
  | follow hstart hstop hle =>
      obtain ⟨name, hname⟩ := Option.isSome_iff_exists.1 (Text.slice?_isSome_iff.2
        ⟨isBoundary_iff_cut.2 hstart, isBoundary_iff_cut.2 hstop, hle⟩)
      simp only [perform, hname] at h
      rcases Results.bind_eq_error.1 h with h | ⟨target, htarget, h⟩
      · exact .inclusion (findFile_eq_error h)
      · exact henter htarget h

/-- The files that are open: each once, among those that can be read, and with room for
the depth that is left. -/
structure HasRoom (paths opened : List String) (limit : Nat) : Prop where
  nodup : opened.Nodup
  known : ∀ path ∈ opened, path ∈ paths
  deep : paths.length ≤ limit + opened.length

theorem HasRoom.pos (h : HasRoom paths opened limit) (hopen : path ∉ opened)
    (hpath : path ∈ paths) : 0 < limit := by
  have hnodup : (path :: opened).Nodup := List.nodup_cons.2 ⟨hopen, h.nodup⟩
  have hknown : path :: opened ⊆ paths := by
    intro other hother
    rcases List.mem_cons.1 hother with rfl | hother
    · exact hpath
    · exact h.known other hother
  have hlength := hnodup.length_le_of_subset hknown
  have hdeep := h.deep
  rw [List.length_cons] at hlength
  omega

theorem HasRoom.cons (h : HasRoom paths opened (limit + 1)) (hopen : path ∉ opened)
    (hpath : path ∈ paths) : HasRoom paths (path :: opened) limit where
  nodup := List.nodup_cons.2 ⟨hopen, h.nodup⟩
  known := List.forall_mem_cons.2 ⟨hpath, h.known⟩
  deep := by
    have hdeep := h.deep
    rw [List.length_cons]
    omega

theorem atInclusion_of_mem (hopen : path ∈ opened)
    (h : expandFile files options limit opened flat path = .error e) : e.AtInclusion := by
  rw [expandFile, if_pos (by simpa using hopen)] at h
  exact Except.error.inj h ▸ AtInclusion.cyclicInclusion

theorem atFile_of_unread {cause : LoadError} (hopen : path ∉ opened)
    (hpath : files.contains path = true) (hread : files.read path = .error cause)
    (h : expandFile files options limit opened flat path = .error e) : e.AtFile files := by
  rw [expandFile, if_neg (by simpa using hopen), hread] at h
  obtain rfl : cause = e := Except.error.inj h
  exact atFile_of_read hpath hread

/-- Expanding a file that is there fails only at a file. -/
theorem expandFile_eq_error
    (hpaths : ∀ path text, files.entry? (Path.normalize path) = some (.content text) →
      Path.normalize path ∈ paths)
    (hroom : HasRoom paths opened limit) {name : String} {includer : Option String}
    (hfound : findFile files name includer = .ok path) (hflat : Aligned flat)
    (h : expandFile files options limit opened flat path = .error e) : e.AtFile files := by
  induction limit generalizing opened flat path name includer with
  | zero =>
      by_cases hopen : path ∈ opened
      · exact .inclusion (atInclusion_of_mem hopen h)
      · cases hread : files.read path with
        | error cause => exact atFile_of_unread hopen (contains_of_findFile hfound) hread h
        | ok content =>
            obtain ⟨spelled, rfl⟩ := exists_normalize_of_findFile hfound
            have hpath := hpaths spelled content (entry?_of_read hread)
            exact absurd (hroom.pos hopen hpath) (Nat.lt_irrefl 0)
  | succ limit ih =>
      by_cases hopen : path ∈ opened
      · exact .inclusion (atInclusion_of_mem hopen h)
      · cases hread : files.read path with
        | error cause => exact atFile_of_unread hopen (contains_of_findFile hfound) hread h
        | ok content =>
            obtain ⟨spelled, rfl⟩ := exists_normalize_of_findFile hfound
            have hpath := hpaths spelled content (entry?_of_read hread)
            obtain ⟨htidy, -⟩ := tidy_moves options content
            rw [expandFile_settled hopen hread hflat] at h
            obtain ⟨move, hmove, inner, hinner, hfails⟩ := Results.foldlM_eq_error Aligned
              (fun _ _ _ _ hinner hresult => perform_aligned expandFile_aligned hinner hresult)
              (hflat.enter _ content) h
            exact perform_eq_error
              (fun htarget => ih (hroom.cons hopen hpath) htarget hinner)
              (htidy.clean move hmove) hfails

theorem atFile_of_expand {main : String} (hbounded : files.Bounded)
    (h : expand files options main = .error e) : e.AtFile files := by
  obtain ⟨paths, hdeep, hpaths⟩ := hbounded
  rcases Results.bind_eq_error.1 h with h | ⟨path, hpath, h⟩
  · exact .inclusion (findFile_eq_error h)
  · have hroom : HasRoom paths [] files.depth := ⟨List.nodup_nil, by simp, hdeep⟩
    exact expandFile_eq_error hpaths hroom hpath aligned_empty h

/-! ## Files in memory -/

abbrev WithinDepth (files : MemoryFiles) (opened : List String) (limit : Nat) : Prop :=
  HasRoom (files.entries.map (·.1)) opened limit

theorem withinDepth_nil (files : MemoryFiles) : WithinDepth files [] files.toFileSet.depth := by
  refine ⟨List.nodup_nil, by simp, ?_⟩
  rw [List.length_map]
  exact Nat.le_refl _

theorem WithinDepth.pos {files : MemoryFiles} (h : WithinDepth files opened limit)
    (hopen : path ∉ opened) (hpath : files.toFileSet.contains path = true) : 0 < limit :=
  HasRoom.pos h hopen (MemoryFiles.mem_paths hpath)

theorem WithinDepth.cons {files : MemoryFiles} (h : WithinDepth files opened (limit + 1))
    (hopen : path ∉ opened) (hpath : files.toFileSet.contains path = true) :
    WithinDepth files (path :: opened) limit :=
  HasRoom.cons h hopen (MemoryFiles.mem_paths hpath)

/-- Flattening files in memory fails only at an inclusion. -/
theorem expand_eq_error {files : MemoryFiles} {main : String}
    (h : expand files.toFileSet options main = .error e) : e.AtInclusion := by
  cases atFile_of_expand files.bounded h with
  | inclusion h => exact h
  | unreadable hentry =>
      obtain ⟨content, -, hcontent⟩ := Option.map_eq_some_iff.1 hentry
      cases hcontent

end Flat

end LatexOrigins
