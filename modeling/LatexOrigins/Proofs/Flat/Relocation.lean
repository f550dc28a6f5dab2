import LatexOrigins.Proofs.Flat.Trace
import Mathlib.Data.List.Forall2

/-!
# Two runs side by side

Two file sets that differ in the content of one file are flattened side by side. If the moves
of the two contents do the same, apart from where they find what they keep, then so do the two
runs: wherever they reach the changed file, from whichever files and however often, they fail
alike or append the same text. A byte that stays has the same file in both tables, and the
offset in one tells that in the other.
-/

namespace LatexOrigins.Flat

open Results (Matched)

/-- An entry of one table and the entry at its place in another: of the same file, and of the
offset that `place` has for the path of that file. -/
def Moved (place : String → Nat → Nat) (paths : List String)
    (entry entry' : Option Provenance) : Prop :=
  ∃ origin path, entry = some origin ∧ paths[origin.file]? = some path ∧
    entry' = some ⟨origin.file, place path origin.offset⟩

/-- Two flat sources with the same text and the same registered paths, the entries of which
differ in their offsets only. -/
structure Relocated (place : String → Nat → Nat) (flat flat' : Flat) : Prop where
  text : flat'.text = flat.text
  paths : flat'.paths = flat.paths
  entries : List.Forall₂ (Moved place flat.paths) flat.entries flat'.entries
  /-- Each byte of the text has an entry. -/
  aligned : Aligned flat

/-- Two ways of entering files that do the same, apart from offsets. -/
structure Paired (place : String → Nat → Nat) (files files' : FileSet)
    (enter enter' : Flat → String → Except LoadError Flat) : Prop where
  find : ∀ name includer, findFile files' name includer = findFile files name includer
  same : ∀ ⦃flat flat' target⦄, Relocated place flat flat' →
    Matched (Relocated place) (enter flat target) (enter' flat' target)
  grown : ∀ ⦃flat result target⦄, enter flat target = .ok result →
    flat.files.toList <+: result.files.toList

/-- The moves of one content of a file and those of another do the same, apart from offsets. -/
def Alike (place : String → Nat → Nat) (path content content' : String)
    (ms ms' : List Move) : Prop :=
  ∀ ⦃files files' enter enter'⦄, Paired place files files' enter enter' →
    ∀ ⦃flat flat' id⦄, flat.paths[id]? = some path → Relocated place flat flat' →
      Matched (Relocated place) (ms.foldlM (perform files enter path id content) flat)
        (ms'.foldlM (perform files' enter' path id content') flat')

variable {place : String → Nat → Nat} {path content content' : String} {flat flat' : Flat}
  {start stop start' stop' : Nat} {ms ms' rest rest' : List Move}

/-! ## Single operations -/

theorem getElem?_grown {paths longer : List String} {id : Nat} (hgrown : paths <+: longer)
    (h : paths[id]? = some path) : longer[id]? = some path := by
  obtain ⟨hlt, rfl⟩ := List.getElem?_eq_some_iff.1 h
  exact List.prefix_iff_getElem?.1 hgrown id hlt

theorem Moved.grown {paths longer : List String} {entry entry' : Option Provenance}
    (hgrown : paths <+: longer) (h : Moved place paths entry entry') :
    Moved place longer entry entry' := by
  obtain ⟨origin, path, rfl, hpath, rfl⟩ := h
  exact ⟨origin, path, rfl, getElem?_grown hgrown hpath, rfl⟩

theorem moved_provenances {id : Nat} {paths : List String} (hid : paths[id]? = some path) (n : Nat)
    (hplace : ∀ i < n, place path (start + i) = start' + i) :
    List.Forall₂ (Moved place paths) (provenances id start (start + n))
      (provenances id start' (start' + n)) := by
  rw [List.forall₂_iff_get]
  refine ⟨by simp, fun i hi hi' => ?_⟩
  rw [length_provenances] at hi
  simp only [provenances, List.get_eq_getElem, List.getElem_map, List.getElem_range', Nat.one_mul]
  exact ⟨_, path, rfl, hid, by rw [hplace i (by omega)]⟩

namespace Relocated

theorem empty (place : String → Nat → Nat) : Relocated place empty empty :=
  ⟨rfl, rfl, .nil, aligned_empty⟩

theorem aligned' (h : Relocated place flat flat') : Aligned flat' := by
  rw [Aligned, ← h.entries.length_eq, h.aligned, textBytes, textBytes, h.text]

theorem enter (h : Relocated place flat flat') (path content content' : String) :
    (flat'.enter path content').2 = (flat.enter path content).2 ∧
      Relocated place (flat.enter path content).1 (flat'.enter path content').1 := by
  obtain ⟨hgrown, htext, horigins, -, -⟩ := enter_spec flat path content
  obtain ⟨-, htext', horigins', -, -⟩ := enter_spec flat' path content'
  have hpaths : (flat'.enter path content').1.paths = (flat.enter path content).1.paths := by
    rw [paths_enter, paths_enter, h.paths]
  constructor
  · rw [← idxOf_paths (idOf?_enter flat' path content'), hpaths,
      idxOf_paths (idOf?_enter flat path content)]
  · refine ⟨by rw [htext', htext, h.text], hpaths, ?_, h.aligned.enter path content⟩
    rw [Flat.entries, Flat.entries, horigins, horigins']
    exact h.entries.imp fun _ _ => Moved.grown (paths_grown hgrown)

theorem keep {id : Nat} (h : Relocated place flat flat') (hid : flat.paths[id]? = some path)
    (hsize : stop' - start' = stop - start)
    (hslice : Text.slice? content' start' stop' = Text.slice? content start stop)
    (hplace : ∀ i < stop - start, place path (start + i) = start' + i) :
    Matched (Relocated place) (flat.keep id content start stop)
      (flat'.keep id content' start' stop') := by
  have hkeep {kept : Flat} (h' : flat.keep id content start stop = .ok kept) : Aligned kept :=
    h.aligned.keep h'
  unfold Flat.keep at hkeep ⊢
  by_cases hlt : start < stop
  · rw [if_pos hlt] at hkeep ⊢
    rw [if_pos (by omega), hslice]
    cases hpiece : Text.slice? content start stop with
    | none => exact .error _
    | some piece =>
        rw [hpiece] at hkeep
        refine .ok ⟨congrArg (· ++ piece) h.text, h.paths, ?_, hkeep rfl⟩
        have hpieces := moved_provenances hid (stop - start) hplace
        rw [Nat.add_sub_cancel' (Nat.le_of_lt hlt), ← hsize,
          Nat.add_sub_cancel' (by omega : start' ≤ stop')] at hpieces
        change List.Forall₂ (Moved place flat.paths) _ _
        simpa [Flat.entries] using List.rel_append h.entries hpieces
  · rw [if_neg hlt, if_neg (by omega)]
    exact .ok h

theorem retract (h : Relocated place flat flat') (count : Nat) :
    Matched (Relocated place) (flat.retract count) (flat'.retract count) := by
  have hretract {left : Flat} (h' : flat.retract count = .ok left) : Aligned left :=
    h.aligned.retract h'
  unfold Flat.retract at hretract ⊢
  rw [h.text]
  by_cases hle : count ≤ flat.text.utf8ByteSize
  · rw [if_pos hle] at hretract ⊢
    rw [if_pos hle]
    simp only at hretract ⊢
    cases htext : Text.slice? flat.text 0 (flat.text.utf8ByteSize - count) with
    | none => exact .error _
    | some text =>
        rw [htext] at hretract
        refine .ok ⟨rfl, h.paths, ?_, hretract rfl⟩
        change List.Forall₂ (Moved place flat.paths) _ _
        simpa [Flat.entries] using
          List.forall₂_take (flat.text.utf8ByteSize - count) h.entries
  · rw [if_neg hle, if_neg hle]
    exact .error _

end Relocated

/-! ## Moves -/

namespace Alike

theorem nil : Alike place path content content' [] [] :=
  fun _ _ _ _ _ _ _ _ _ h => .ok h

theorem append (h : Alike place path content content' ms ms')
    (hrest : Alike place path content content' rest rest') :
    Alike place path content content' (ms ++ rest) (ms' ++ rest') := by
  intro files files' enter enter' hpaired flat flat' id hid hflat
  rw [List.foldlM_append, List.foldlM_append]
  refine (h hpaired hid hflat).bind fun middle middle' hmiddle hrelated => ?_
  have hgrown := paths_grown (foldlM_grown (@hpaired.grown) hmiddle)
  exact hrest hpaired (getElem?_grown hgrown hid) hrelated

theorem cons {move move' : Move} (h : Alike place path content content' [move] [move'])
    (hrest : Alike place path content content' rest rest') :
    Alike place path content content' (move :: rest) (move' :: rest') :=
  h.append hrest

theorem single {move move' : Move}
    (h : ∀ ⦃files files' enter enter'⦄, Paired place files files' enter enter' →
      ∀ ⦃flat flat' id⦄, flat.paths[id]? = some path → Relocated place flat flat' →
        Matched (Relocated place) (perform files enter path id content flat move)
          (perform files' enter' path id content' flat' move')) :
    Alike place path content content' [move] [move'] := by
  intro files files' enter enter' hpaired flat flat' id hid hflat
  rw [List.foldlM_cons, List.foldlM_cons]
  exact (h hpaired hid hflat).bind fun _ _ _ hrelated => .ok hrelated

theorem keep (hsize : stop' - start' = stop - start)
    (hslice : Text.slice? content' start' stop' = Text.slice? content start stop)
    (hplace : ∀ i < stop - start, place path (start + i) = start' + i) :
    Alike place path content content' [.keep start stop] [.keep start' stop'] :=
  single fun _ _ _ _ _ _ _ _ hid hflat =>
    (hflat.keep hid hsize hslice hplace).mapError LoadError.fault

theorem comment (indentation : Option Nat) :
    Alike place path content content' [.comment start indentation]
      [.comment start' indentation] := by
  refine single fun _ _ _ _ _ flat flat' _ _ hflat => ?_
  cases indentation with
  | none => exact .ok hflat
  | some count => exact (hflat.retract count).mapError LoadError.fault

theorem follow
    (hslice : Text.slice? content' start' stop' = Text.slice? content start stop) :
    Alike place path content content' [.follow start stop] [.follow start' stop'] := by
  refine single fun files files' enter enter' hpaired flat flat' _ _ hflat => ?_
  simp only [perform, hslice]
  cases Text.slice? content start stop with
  | none => exact .error _
  | some name =>
      simp only [hpaired.find]
      cases findFile files name (some path) with
      | error e => exact .error e
      | ok target => exact hpaired.same hflat

theorem refl (hplace : ∀ k, place path k = k) (content : String) (ms : List Move) :
    Alike place path content content ms ms := by
  induction ms with
  | nil => exact nil
  | cons move rest ih =>
      refine cons ?_ ih
      cases move with
      | keep start stop => exact keep rfl rfl fun i _ => hplace (start + i)
      | comment start indentation => exact comment indentation
      | follow start stop => exact follow rfl

end Alike

/-! ## Runs -/

/-- Two file sets that differ in the content of one file only. -/
structure Edited (files files' : FileSet) (path content content' : String) : Prop where
  root : files'.root = files.root
  depth : files'.depth = files.depth
  content : files.entry? path = some (.content content)
  content' : files'.entry? path = some (.content content')
  others : ∀ other, other ≠ path → files'.entry? other = files.entry? other

namespace Edited

variable {files files' : FileSet}

theorem contains (h : Edited files files' path content content') (other : String) :
    files'.contains other = files.contains other := by
  by_cases hother : other = path
  · rw [hother, FileSet.contains, FileSet.contains, h.content, h.content']
    rfl
  · rw [FileSet.contains, FileSet.contains, h.others other hother]

theorem find (h : Edited files files' path content content') (name : String)
    (includer : Option String) : findFile files' name includer = findFile files name includer := by
  have hcandidates : files'.candidates name includer = files.candidates name includer := by
    rw [FileSet.candidates, FileSet.directories, h.root]
    rfl
  rw [findFile, findFile, FileSet.resolve, FileSet.resolve, hcandidates, funext h.contains]

variable {options : Options}

theorem read_alike (h : Edited files files' path content content')
    (hplace : ∀ other, other ≠ path → ∀ k, place other k = k)
    (hmoves : Alike place path content content' (moves options content) (moves options content'))
    (target : String) :
    Matched (fun found found' =>
        Alike place target found found' (moves options found) (moves options found'))
      (files.read target) (files'.read target) := by
  unfold FileSet.read
  by_cases htarget : target = path
  · rw [htarget, h.content, h.content']
    exact .ok hmoves
  · rw [h.others target htarget]
    split
    · next found _ => exact .ok (.refl (hplace target htarget) found _)
    · exact .error _

/-- Wherever the two runs come to a file, they do the same there. -/
theorem expandFile_relocated (h : Edited files files' path content content')
    (hplace : ∀ other, other ≠ path → ∀ k, place other k = k)
    (hmoves : Alike place path content content' (moves options content) (moves options content'))
    {limit : Nat} {opened : List String} {target : String} (hflat : Relocated place flat flat') :
    Matched (Relocated place) (expandFile files options limit opened flat target)
      (expandFile files' options limit opened flat' target) := by
  induction limit generalizing opened flat flat' target with
  | zero =>
      unfold expandFile
      split
      · exact .error _
      · exact (h.read_alike hplace hmoves target).bind fun _ _ _ _ => .error _
  | succ limit ih =>
      unfold expandFile
      split
      · exact .error _
      refine (h.read_alike hplace hmoves target).bind fun found found' _ hfound => ?_
      obtain ⟨hid, hentered⟩ := hflat.enter target found found'
      have hnumber := getElem?_paths (idOf?_enter flat target found)
      simp only [hid]
      have hpaired : Paired place files files' (expandFile files options limit (target :: opened))
          (expandFile files' options limit (target :: opened)) :=
        ⟨h.find, fun _ _ _ => ih, fun _ _ _ => expandFile_grown⟩
      exact hfound hpaired hnumber hentered

/-- The two runs fail with the same error, or have the same text, the same paths and the same
origins, offsets in the changed file apart. -/
theorem expand_relocated (h : Edited files files' path content content')
    (hplace : ∀ other, other ≠ path → ∀ k, place other k = k)
    (hmoves : Alike place path content content' (moves options content) (moves options content'))
    (main : String) :
    Matched (Relocated place) (expand files options main) (expand files' options main) := by
  rw [expand, expand, h.find, h.depth]
  cases findFile files main none with
  | error e => exact .error e
  | ok target => exact h.expandFile_relocated hplace hmoves (.empty place)

theorem insert (files : MemoryFiles) (name content content' : String) :
    Edited (files.insert name content).toFileSet (files.insert name content').toFileSet
      (Path.normalize (Path.join files.root name)) content content' where
  root := rfl
  depth := rfl
  content := by simp [MemoryFiles.insert, MemoryFiles.toFileSet, MemoryFiles.find?]
  content' := by simp [MemoryFiles.insert, MemoryFiles.toFileSet, MemoryFiles.find?]
  others other hother := by
    simp [MemoryFiles.insert, MemoryFiles.toFileSet, MemoryFiles.find?, Ne.symm hother]

end Edited

end LatexOrigins.Flat
