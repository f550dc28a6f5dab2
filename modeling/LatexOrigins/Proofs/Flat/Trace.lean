import LatexOrigins.Proofs.Flat.Cycle
import LatexOrigins.Proofs.Flat.Repeat
import Mathlib.Data.List.Induction

/-!
# What happens in a run

The content of a file and those of the files that it includes determine what happens while
it is expanded: files are entered, ranges of them are written, and indentation is taken
back. Two things can be read off these events. The registered files are the entered ones,
each where it is entered for the first time. The table holds what is written, each range
under the number of the file that it is a range of.
-/

namespace LatexOrigins.Flat

inductive Event where
  | enter (path : String)
  | write (path : String) (start stop : Nat)
  | takeBack (count : Nat)
  deriving DecidableEq, Repr

/-- The paths of the registered files; the number of a file is the index of its path. -/
def paths (flat : Flat) : List String := flat.files.toList.map (·.path)

/-- The file that an inclusion leads to. -/
def target? (files : FileSet) (path content : String) (start stop : Nat) : Option String :=
  (Text.slice? content start stop).bind fun name => files.resolve name (some path)

/-- The events of a move of a file; `inner` tells those of a file that is included. -/
def eventsOf (files : FileSet) (inner : String → List Event) (path content : String) :
    Move → List Event
  | .keep start stop => [.write path start stop]
  | .comment _ none => []
  | .comment _ (some count) => [.takeBack count]
  | .follow start stop => (target? files path content start stop).elim [] inner

/-- The events of expanding a file. Those of an included file stand in its place. -/
def trace (files : FileSet) (options : Options) : Nat → String → List Event
  | 0, _ => []
  | limit + 1, path =>
    match files.read path with
    | .error _ => []
    | .ok content =>
      .enter path ::
        (moves options content).flatMap (eventsOf files (trace files options limit) path content)

/-- The files that are entered, each as often as it is. -/
def entered (events : List Event) : List String :=
  events.filterMap fun
    | .enter path => some path
    | _ => none

/-- The table after an event, for some numbering of the files. -/
def Event.record (number : String → Nat) (table : List (Option Provenance)) :
    Event → List (Option Provenance)
  | .enter _ => table
  | .write path start stop => table ++ provenances (number path) start stop
  | .takeBack count => table.take (table.length - count)

def tableOf (number : String → Nat) (events : List Event) : List (Option Provenance) :=
  events.foldl (Event.record number) []

variable {files : FileSet} {options : Options} {path content : String} {opened : List String}
  {limit id : Nat} {flat flat' middle final : Flat} {number : String → Nat}
  {events others : List Event}

@[simp] theorem entered_append (events others : List Event) :
    entered (events ++ others) = entered events ++ entered others :=
  List.filterMap_append

@[simp] theorem entered_enter (path : String) (events : List Event) :
    entered (.enter path :: events) = path :: entered events := rfl

theorem mem_entered : path ∈ entered events ↔ .enter path ∈ events := by
  rw [entered, List.mem_filterMap]
  constructor
  · rintro ⟨event, hevent, hpath⟩
    cases event with
    | enter other => exact Option.some.inj hpath ▸ hevent
    | write | takeBack => cases hpath
  · exact fun h => ⟨.enter path, h, rfl⟩

/-! ## Registered files -/

theorem eraseDups_concat (l : List String) (a : String) :
    (l ++ [a]).eraseDups = if a ∈ l then l.eraseDups else l.eraseDups ++ [a] := by
  rw [List.eraseDups_append]
  by_cases h : a ∈ l
  · have hremoved : [a].removeAll l = [] := by simp [List.removeAll, h]
    rw [if_pos h, hremoved, List.eraseDups_nil, List.append_nil]
  · have hkept : [a].removeAll l = [a] := by simp [List.removeAll, h]
    rw [if_neg h, hkept, List.eraseDups_cons, List.filter_nil, List.eraseDups_nil]

theorem nodup_eraseDups (l : List String) : l.eraseDups.Nodup := by
  induction l using List.reverseRecOn with
  | nil => exact List.nodup_nil
  | append_singleton l a ih =>
      rw [eraseDups_concat]
      split
      · exact ih
      · next h =>
        refine List.nodup_append.2 ⟨ih, List.nodup_singleton a, fun b hb c hc => ?_⟩
        rintro rfl
        obtain rfl := List.mem_singleton.1 hc
        exact h (List.mem_eraseDups.1 hb)

theorem idOf?_eq_none_iff : flat.idOf? path = none ↔ path ∉ flat.paths := by
  rw [idOf?_eq, List.findIdx?_eq_none_iff, paths, List.mem_map, not_exists]
  simp

theorem paths_grown (h : flat.files.toList <+: final.files.toList) : flat.paths <+: final.paths :=
  h.map _

theorem exists_idOf? (h : path ∈ flat.paths) : ∃ id, flat.idOf? path = some id := by
  refine Option.isSome_iff_exists.1 (Option.isSome_iff_ne_none.2 fun hnone => ?_)
  exact idOf?_eq_none_iff.1 hnone h

theorem getElem?_paths (h : flat.idOf? path = some id) : flat.paths[id]? = some path := by
  obtain ⟨hlt, hpath, -⟩ := Array.findIdx?_eq_some_iff_getElem.1 h
  have hpath : flat.files[id].path = path := by simpa using hpath
  rw [paths, List.getElem?_map, Array.getElem?_toList, Array.getElem?_eq_getElem hlt,
    Option.map_some, hpath]

theorem idxOf_paths (h : flat.idOf? path = some id) : flat.paths.idxOf path = id := by
  rw [idOf?_eq] at h
  have hindex : flat.paths.findIdx? (· == path) = some id := by
    rw [paths, List.findIdx?_map]
    exact h
  exact (List.findIdx?_eq_some_iff_findIdx_eq.1 hindex).2

theorem paths_enter (flat : Flat) (path content : String) :
    (flat.enter path content).1.paths =
      if path ∈ flat.paths then flat.paths else flat.paths ++ [path] := by
  unfold enter
  split
  · next id hid =>
    have hmem : path ∈ flat.paths := by
      by_contra hmem
      rw [idOf?_eq_none_iff.2 hmem] at hid
      cases hid
    rw [if_pos hmem]
  · next hnone =>
    rw [if_neg (idOf?_eq_none_iff.1 hnone)]
    simp [paths, addFile]

theorem mem_paths_enter {other : String} :
    other ∈ (flat.enter path content).1.paths ↔ other = path ∨ other ∈ flat.paths := by
  rw [paths_enter]
  split
  · next h => exact ⟨Or.inr, fun hother => hother.elim (fun heq => heq ▸ h) id⟩
  · rw [List.mem_append, List.mem_singleton, or_comm]

/-! ## Following the events -/

/-- A flat source is made from another one by some events: what is entered is registered
behind what has been entered before, and what is written is recorded. -/
structure Follows (number : String → Nat) (flat flat' : Flat) (events : List Event) : Prop where
  paths : ∀ before, flat.paths = before.eraseDups →
    flat'.paths = (before ++ entered events).eraseDups
  entries : flat'.entries = events.foldl (Event.record number) flat.entries

namespace Follows

theorem of_files_eq (hfiles : flat'.files = flat.files) (hnothing : entered events = [])
    (hentries : flat'.entries = events.foldl (Event.record number) flat.entries) :
    Follows number flat flat' events where
  paths before hbefore := by
    rw [Flat.paths, hfiles, hnothing, List.append_nil]
    exact hbefore
  entries := hentries

theorem refl (flat : Flat) : Follows number flat flat [] := of_files_eq rfl rfl rfl

theorem append (h : Follows number flat middle events)
    (hothers : Follows number middle flat' others) :
    Follows number flat flat' (events ++ others) where
  paths before hbefore := by
    rw [hothers.paths _ (h.paths before hbefore), entered_append, List.append_assoc]
  entries := by rw [hothers.entries, h.entries, List.foldl_append]

theorem enter (flat : Flat) (path content : String) :
    Follows number flat (flat.enter path content).1 [.enter path] where
  paths before hbefore := by
    have hmem : path ∈ flat.paths ↔ path ∈ before := by rw [hbefore, List.mem_eraseDups]
    have hentered : entered [.enter path] = [path] := rfl
    rw [paths_enter, hentered, eraseDups_concat, ← hbefore]
    exact if_congr hmem rfl rfl
  entries := by
    obtain ⟨-, -, horigins, -, -⟩ := enter_spec flat path content
    rw [Flat.entries, horigins]
    rfl

theorem keep {start stop : Nat} (hnumber : number path = id)
    (h : flat.keep id content start stop = .ok flat') :
    Follows number flat flat' [.write path start stop] := by
  obtain ⟨hfiles, -, hentries⟩ := keep_eq_ok h
  refine of_files_eq hfiles rfl ?_
  rw [hentries, ← hnumber]
  rfl

theorem retract {count : Nat} (hflat : Aligned flat) (h : flat.retract count = .ok flat') :
    Follows number flat flat' [.takeBack count] := by
  obtain ⟨-, hfiles, -, hentries⟩ := retract_eq_ok h
  refine of_files_eq hfiles rfl ?_
  rw [hentries, ← hflat]
  rfl

end Follows

theorem target?_eq_some {start stop : Nat} {name target : String}
    (hname : Text.slice? content start stop = some name)
    (htarget : findFile files name (some path) = .ok target) :
    target? files path content start stop = some target := by
  rw [target?, hname]
  exact resolve_of_findFile htarget

/-- Expansions do what their events say, as long as they number files as `final` does. -/
def Traced (files : FileSet) (options : Options) (final : Flat) (limit : Nat) : Prop :=
  ∀ ⦃opened flat flat' path⦄, expandFile files options limit opened flat path = .ok flat' →
    Aligned flat → flat'.files.toList <+: final.files.toList →
      Follows final.paths.idxOf flat flat' (trace files options limit path)

theorem perform_follows {move : Move} (hlimit : Traced files options final limit)
    (hnumber : final.paths.idxOf path = id) (hflat : Aligned flat)
    (hfinal : flat'.files.toList <+: final.files.toList)
    (h : perform files (expandFile files options limit opened) path id content flat move =
      .ok flat') :
    Follows final.paths.idxOf flat flat'
      (eventsOf files (trace files options limit) path content move) := by
  cases move with
  | keep start stop => exact .keep hnumber (Results.mapError_eq_ok.1 h)
  | comment start indentation =>
      cases indentation with
      | none =>
          obtain rfl := Except.ok.inj h
          exact .refl flat
      | some count => exact .retract hflat (Results.mapError_eq_ok.1 h)
  | follow start stop =>
      obtain ⟨name, target, hname, htarget, hexpand⟩ := perform_follow_eq_ok h
      rw [eventsOf, target?_eq_some hname htarget]
      exact hlimit hexpand hflat hfinal

theorem foldlM_follows {moves : List Move} (hlimit : Traced files options final limit)
    (hnumber : final.paths.idxOf path = id) (hflat : Aligned flat)
    (hfinal : flat'.files.toList <+: final.files.toList)
    (h : moves.foldlM (perform files (expandFile files options limit opened) path id content) flat =
      .ok flat') :
    Follows final.paths.idxOf flat flat'
      (moves.flatMap (eventsOf files (trace files options limit) path content)) := by
  induction moves generalizing flat with
  | nil =>
      obtain rfl := Results.pure_eq_ok.1 h
      exact .refl flat
  | cons move moves ih =>
      rw [List.foldlM_cons] at h
      obtain ⟨middle, hmiddle, h⟩ := Results.bind_eq_ok.1 h
      have hgrown := (foldlM_grown expandFile_grown h).trans hfinal
      exact (perform_follows hlimit hnumber hflat hgrown hmiddle).append
        (ih (perform_aligned expandFile_aligned hflat hmiddle) h)

theorem trace_eq (hread : files.read path = .ok content) :
    trace files options (limit + 1) path = .enter path ::
      (moves options content).flatMap
        (eventsOf files (trace files options limit) path content) := by
  rw [trace, hread]

theorem idxOf_enter (h : (flat.enter path content).1.files.toList <+: final.files.toList) :
    final.paths.idxOf path = (flat.enter path content).2 :=
  idxOf_paths (idOf?_of_grown (idOf?_enter flat path content) h)

/-- An expansion that succeeds does what its events say, one after the other. -/
theorem expandFile_follows (files : FileSet) (options : Options) (final : Flat) (limit : Nat) :
    Traced files options final limit := by
  induction limit with
  | zero =>
      intro opened flat flat' path h
      exact absurd h expandFile_zero_ne_ok
  | succ limit ih =>
      intro opened flat flat' path h hflat hfinal
      obtain ⟨-, content, depth, hdepth, hread, h⟩ := expandFile_eq_ok h
      obtain rfl := Nat.succ.inj hdepth
      have hgrown := (foldlM_grown expandFile_grown h).trans hfinal
      rw [trace_eq hread]
      exact (Follows.enter flat path content).append
        (foldlM_follows ih (idxOf_enter hgrown) (hflat.enter path content) hfinal h)

end LatexOrigins.Flat
