import LatexOrigins.Proofs.Document.Gates
import LatexOrigins.Proofs.Document.Tracing
import LatexOrigins.Proofs.Flat.Settled
import Mathlib.Algebra.GroupWithZero.Nat

/-!
# Flat sources made by calls

A flat source that is not made by expanding files is made by calls: a file is registered, a
range of a registered file is kept, or a text is inserted. Any number of such calls in any order
makes a flat source that passes the check of its table, and the table holds what was called, one
call after the other. So the two ways to look up where a byte comes from agree.
-/

namespace LatexOrigins.Flat

open Markup

/-- A call that adds to a flat source. -/
inductive Call where
  | addFile (path content : String)
  | keep (file : Nat) (content : String) (start stop : Nat)
  | insert (text : String)

namespace Call

def perform (flat : Flat) : Call → Except Fault Flat
  | .addFile path content => .ok (flat.addFile path content)
  | .keep file content start stop => flat.keep file content start stop
  | .insert text => .ok (flat.insert text)

/-- The files that a call registers. -/
def files : Call → List FileCopy
  | .addFile path content => [⟨path, content⟩]
  | _ => []

/-- How many bytes a call appends. -/
def width : Call → Nat
  | .addFile _ _ => 0
  | .keep _ _ start stop => stop - start
  | .insert text => text.utf8ByteSize

/-- How many of these come from a file. -/
def kept : Call → Nat
  | .keep _ _ start stop => stop - start
  | _ => 0

/-- Where one of these bytes comes from. -/
def origin? (j : Nat) : Call → Option Provenance
  | .keep file _ start _ => some ⟨file, start + j⟩
  | _ => none

/-- A range is kept of a registered file with its content, and unless it is empty or reversed
it lies between characters of that content. -/
inductive Permitted (copies : List FileCopy) : Call → Prop where
  | addFile (path content : String) : Permitted copies (.addFile path content)
  | keep {file start stop : Nat} {copy : FileCopy} (hcopy : copies[file]? = some copy)
      (hcut : start < stop → Text.isBoundary copy.content start = true ∧
        Text.isBoundary copy.content stop = true) :
      Permitted copies (.keep file copy.content start stop)
  | insert (text : String) : Permitted copies (.insert text)

/-- The entries of the bytes that a call appends. -/
def entries (call : Call) : List (Option Provenance) :=
  (List.range call.width).map fun j => call.origin? j

end Call

/-- Calls of which each is permitted when those before it have been made. -/
inductive Permissible : List Call → Prop where
  | nil : Permissible []
  | push {calls : List Call} {call : Call} (h : Permissible calls)
      (hcall : call.Permitted (calls.flatMap Call.files)) : Permissible (calls ++ [call])

/-- What the flat byte at an offset comes from, when some calls have been made. -/
def pushed? : List Call → Nat → Option Provenance
  | [], _ => none
  | call :: calls, k =>
    if k < call.width then call.origin? k else pushed? calls (k - call.width)

/-- A flat source is what some calls have made of nothing. -/
structure Built (calls : List Call) (flat : Flat) : Prop where
  files : flat.files.toList = calls.flatMap Call.files
  entries : flat.entries = calls.flatMap Call.entries
  aligned : Aligned flat
  registers : ∀ origin, some origin ∈ flat.entries → flat.Registers origin

variable {calls : List Call} {call : Call} {flat flat' : Flat}

/-! ## Single calls -/

theorem entries_keep (file : Nat) (content : String) (start stop : Nat) :
    (Call.keep file content start stop).entries = provenances file start stop := by
  rw [Call.entries, provenances, List.range'_eq_map_range, List.map_map]
  rfl

theorem entries_insert (text : String) :
    (Call.insert text).entries = List.replicate text.utf8ByteSize none := by
  rw [Call.entries, Call.width]
  simp only [Call.origin?, List.map_const', List.length_range]

theorem insert_spec (flat : Flat) (text : String) :
    (flat.insert text).textBytes = flat.textBytes ++ Text.bytes text ∧
      (flat.insert text).entries =
        flat.entries ++ List.replicate text.utf8ByteSize (none : Option Provenance) := by
  refine ⟨Text.bytes_append _ _, ?_⟩
  simp [Flat.insert, Flat.entries]

theorem Registers.of_grown {origin : Provenance} (h : flat.Registers origin)
    (hgrown : flat.files.toList <+: flat'.files.toList) : flat'.Registers origin := by
  obtain ⟨copy, hcopy, hlt⟩ := h
  exact ⟨copy, getElem?_files_of_grown hgrown hcopy, hlt⟩

theorem built_empty : Built [] empty where
  files := rfl
  entries := rfl
  aligned := aligned_empty
  registers := by
    intro origin horigin
    cases horigin

theorem Built.push (h : Built calls flat)
    (hfiles : flat'.files.toList = flat.files.toList ++ call.files)
    (hentries : flat'.entries = flat.entries ++ call.entries) (haligned : Aligned flat')
    (hregisters : ∀ origin, some origin ∈ call.entries → flat'.Registers origin) :
    Built (calls ++ [call]) flat' where
  files := by rw [hfiles, h.files, List.flatMap_append, List.flatMap_singleton]
  entries := by rw [hentries, h.entries, List.flatMap_append, List.flatMap_singleton]
  aligned := haligned
  registers := by
    intro origin horigin
    rw [hentries, List.mem_append] at horigin
    rcases horigin with horigin | horigin
    -- Registering more files does not renumber those that are there, of whatever path.
    · exact (h.registers origin horigin).of_grown (hfiles ▸ List.prefix_append _ _)
    · exact hregisters origin horigin

/-- A permitted call succeeds, and it adds what it says. -/
theorem Built.step (h : Built calls flat) (hcall : call.Permitted (calls.flatMap Call.files)) :
    ∃ flat', call.perform flat = .ok flat' ∧ Built (calls ++ [call]) flat' := by
  cases hcall with
  | addFile path content =>
      refine ⟨_, rfl, h.push ?_ ?_ h.aligned ?_⟩
      · rw [addFile, Array.toList_push]
        rfl
      · exact (List.append_nil _).symm
      · intro origin horigin
        cases horigin
  | @keep file start stop copy hcopy hcut =>
      -- An empty or reversed range is not looked up, so that its ends may lie anywhere.
      obtain ⟨flat', hkeep⟩ : ∃ flat', flat.keep file copy.content start stop = .ok flat' := by
        by_cases hlt : start < stop
        · obtain ⟨hstart, hstop⟩ := hcut hlt
          exact exists_keep flat file (isBoundary_iff_cut.1 hstart) (isBoundary_iff_cut.1 hstop)
            (Nat.le_of_lt hlt)
        · exact ⟨flat, if_neg hlt⟩
      obtain ⟨hfiles, -, hentries⟩ := keep_eq_ok hkeep
      rw [← h.files, Array.getElem?_toList, ← hfiles] at hcopy
      refine ⟨flat', hkeep, h.push ?_ ?_ (h.aligned.keep hkeep) ?_⟩
      · rw [hfiles]
        exact (List.append_nil _).symm
      · rw [hentries, entries_keep]
      · intro origin horigin
        obtain ⟨j, hj, horigin⟩ := List.mem_map.1 horigin
        obtain rfl := Option.some.inj horigin
        have hwidth : j < stop - start := List.mem_range.1 hj
        have hstop := le_size_of_keep_eq_ok hkeep (by omega)
        refine ⟨copy, hcopy, ?_⟩
        simp only
        omega
  | insert text =>
      obtain ⟨hbytes, hentries⟩ := insert_spec flat text
      refine ⟨_, rfl, h.push (List.append_nil _).symm ?_ ?_ ?_⟩
      · rw [hentries, entries_insert]
      · rw [Aligned, hbytes, hentries, List.length_append, List.length_append,
          List.length_replicate, h.aligned, Text.length_bytes text]
      · intro origin horigin
        rw [entries_insert] at horigin
        cases List.eq_of_mem_replicate horigin

theorem Permissible.exists_built (h : Permissible calls) :
    ∃ flat, calls.foldlM Call.perform empty = .ok flat ∧ Built calls flat := by
  induction h with
  | nil => exact ⟨empty, rfl, built_empty⟩
  | push _ hcall ih =>
      obtain ⟨flat, hflat, hbuilt⟩ := ih
      obtain ⟨flat', hflat', hbuilt'⟩ := hbuilt.step hcall
      refine ⟨flat', ?_, hbuilt'⟩
      rw [List.foldlM_append, hflat, Results.ok_bind, List.foldlM_cons, hflat']
      rfl

/-! ## What was called -/

theorem length_entries (call : Call) : call.entries.length = call.width := by
  rw [Call.entries, List.length_map, List.length_range]

theorem getElem?_flatMap_entries (calls : List Call) (k : Nat) :
    ((calls.flatMap Call.entries)[k]?).join = pushed? calls k := by
  induction calls generalizing k with
  | nil => rfl
  | cons call calls ih =>
      rw [List.flatMap_cons, pushed?]
      split
      · next hlt =>
        rw [List.getElem?_append_left (by rwa [length_entries]), Call.entries, List.getElem?_map,
          List.getElem?_range hlt]
        rfl
      · next hle =>
        rw [List.getElem?_append_right (by rw [length_entries]; omega), length_entries, ih]

theorem countP_entries (call : Call) : call.entries.countP (·.isSome) = call.kept := by
  cases call with
  | addFile => rfl
  | keep file content start stop =>
      rw [List.countP_eq_length.2, length_entries]
      · rfl
      · intro entry hentry
        obtain ⟨j, -, rfl⟩ := List.mem_map.1 hentry
        rfl
  | insert text =>
      rw [entries_insert]
      exact List.countP_eq_zero.2 fun entry hentry => by simp [List.eq_of_mem_replicate hentry]

/-- Both ways to look up a flat byte lead to the same place. -/
theorem originOf?_eq_place? {s : Source} (h : Source.ofFlat flat = .ok s) (k : Nat) :
    ∃ place, s.place? k = .ok place ∧
      flat.originOf? k = place.map fun place => (place.path, place.position.offset) := by
  obtain ⟨-, hfiles, horigins⟩ := Source.ofFlat_eq_ok h
  have hsame : flat.provenance? k = s.provenance? k := by
    rw [Flat.provenance?, Source.provenance?, horigins]
  rw [Flat.originOf?, hsame, Source.place?]
  cases hprovenance : s.provenance? k with
  | none => exact ⟨none, rfl, rfl⟩
  | some origin =>
      obtain ⟨file, hfile, hlt⟩ := Source.file?_of_provenance? hprovenance
      have hcopy := hfile
      rw [Source.file?, hfiles, Array.getElem?_map, Option.map_eq_some_iff] at hcopy
      obtain ⟨copy, hcopy, rfl⟩ := hcopy
      let position := (LinedText.ofString copy.content).position origin.offset
      refine ⟨some ⟨copy.path, origin.file, position⟩, ?_, ?_⟩
      · simp only [hfile, LinedText.positionAt_eq_ok hlt.le, Results.ok_bind]
        rfl
      · simp only [hcopy, Option.bind_eq_bind, Option.bind_some]
        rfl

/-- Any permissible calls make a flat source that has an entry for each byte and passes the check
of its table. Each byte comes from where the calls have it from, in the flat source and in the
checked one, and as many bytes come from a file as were kept. -/
theorem exists_source_of_calls (h : Permissible calls) :
    ∃ flat s, calls.foldlM Call.perform empty = .ok flat ∧
      flat.origins.size = flat.text.utf8ByteSize ∧ Source.ofFlat flat = .ok s ∧
      (∀ k, s.provenance? k = pushed? calls k) ∧
      (∀ k, ∃ place, s.place? k = .ok place ∧
        flat.originOf? k = place.map fun place => (place.path, place.position.offset)) ∧
      s.originCount = (calls.map Call.kept).sum := by
  obtain ⟨flat, hflat, hbuilt⟩ := h.exists_built
  have hsize : flat.origins.size = flat.text.utf8ByteSize := by
    rw [← Array.length_toList]
    exact hbuilt.aligned
  obtain ⟨s, hs⟩ : ∃ s, Source.ofFlat flat = .ok s := by
    refine Source.exists_ofFlat hsize ?_
    rintro k ⟨origin, horigin, hstray⟩
    exact hstray (hbuilt.registers origin (Array.mem_toList_iff.2 (Array.mem_of_getElem? horigin)))
  have horigins := (Source.ofFlat_eq_ok hs).2.2
  refine ⟨flat, s, hflat, hsize, hs, fun k => ?_, originOf?_eq_place? hs, ?_⟩
  · rw [Source.provenance?, horigins, ← Array.getElem?_toList]
    exact (congrArg (fun l => (l[k]?).join) hbuilt.entries).trans (getElem?_flatMap_entries calls k)
  · rw [Source.originCount, horigins, ← Array.countP_toList]
    refine (congrArg (List.countP _) hbuilt.entries).trans ?_
    rw [List.countP_flatMap]
    exact congrArg List.sum (List.map_congr_left fun call _ => countP_entries call)

/-- Two files of one path. One range is a single character of two bytes, the range between its
bytes is empty, and one range is reversed. -/
def sharedPath : List Call :=
  [.insert "-", .addFile "/main.tex" "aéb", .keep 0 "aéb" 1 3, .addFile "/main.tex" "xy",
    .keep 1 "xy" 2 1, .keep 1 "xy" 0 2, .keep 0 "aéb" 2 2]

theorem exists_source_of_calls_sharedPath :
    ∃ flat s, sharedPath.foldlM Call.perform empty = .ok flat ∧
      flat.origins.size = flat.text.utf8ByteSize ∧ Source.ofFlat flat = .ok s ∧
      s.provenance? 0 = none ∧ s.provenance? 2 = some ⟨0, 2⟩ ∧ s.provenance? 4 = some ⟨1, 1⟩ ∧
      s.provenance? 5 = none ∧
      (∃ place, s.place? 4 = .ok place ∧
        flat.originOf? 4 = place.map fun place => (place.path, place.position.offset)) ∧
      s.originCount = 4 := by
  have h : Permissible sharedPath :=
    Permissible.nil.push (.insert "-")
      |>.push (.addFile "/main.tex" "aéb")
      |>.push (@Call.Permitted.keep _ 0 1 3 ⟨"/main.tex", "aéb"⟩ rfl (by decide +kernel))
      |>.push (.addFile "/main.tex" "xy")
      |>.push (@Call.Permitted.keep _ 1 2 1 ⟨"/main.tex", "xy"⟩ rfl (by decide))
      |>.push (@Call.Permitted.keep _ 1 0 2 ⟨"/main.tex", "xy"⟩ rfl (by decide +kernel))
      |>.push (@Call.Permitted.keep _ 0 2 2 ⟨"/main.tex", "aéb"⟩ rfl (by decide))
  obtain ⟨flat, s, hflat, hsize, hs, hprovenance, hplace, hcount⟩ := exists_source_of_calls h
  refine ⟨flat, s, hflat, hsize, hs, ?_, ?_, ?_, ?_, hplace 4, hcount⟩
  · exact (hprovenance 0).trans (by decide +kernel)
  · exact (hprovenance 2).trans (by decide +kernel)
  · exact (hprovenance 4).trans (by decide +kernel)
  · exact (hprovenance 5).trans (by decide +kernel)

end LatexOrigins.Flat
