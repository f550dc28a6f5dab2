import LatexOrigins.Proofs.Flat.Faithful
import LatexOrigins.Proofs.Flat.Trace

/-!
# The numbers of files

Each entry of a run stands at its place among the events of the run, and each place where
the events enter a file is an entry of the run. So files are numbered in the order in which
they are entered for the first time. A number is given before anything of the file is
written, and what is written during a visit carries it.
-/

namespace LatexOrigins.Flat

variable {files : FileSet} {options : Options} {main path content root : String}
  {opened : List String} {limit id : Nat} {flat flat' middle final : Flat}
  {entry next : Entry} {past future : List Event} {number : String → Nat}

/-! ## Entries and events -/

theorem exists_move_of_event {f : Move → List Event} {moves : List Move} {event : Event}
    (h : moves.flatMap f = past ++ event :: future) :
    ∃ front move rest before after, moves = front ++ move :: rest ∧
      past = front.flatMap f ++ before ∧ f move = before ++ event :: after := by
  induction moves generalizing past with
  | nil => simp at h
  | cons move moves ih =>
      have hlater {later : List Event} (hlater : past = f move ++ later)
          (h : moves.flatMap f = later ++ event :: future) :
          ∃ front found rest before after, move :: moves = front ++ found :: rest ∧
            past = front.flatMap f ++ before ∧ f found = before ++ event :: after := by
        obtain ⟨front, found, rest, before, after, rfl, rfl, hfound⟩ := ih h
        refine ⟨move :: front, found, rest, before, after, rfl, ?_, hfound⟩
        rw [hlater, List.flatMap_cons, List.append_assoc]
      rw [List.flatMap_cons, List.append_eq_append_iff] at h
      rcases h with ⟨later, hpast, hrest⟩ | ⟨tail, hmove, hrest⟩
      · exact hlater hpast hrest
      · cases tail with
        | nil =>
            have hpast : past = f move ++ [] := by rw [hmove, List.append_nil, List.append_nil]
            exact hlater hpast hrest.symm
        | cons first tail =>
            obtain ⟨rfl, -⟩ := List.cons.inj hrest
            exact ⟨[], move, moves, past, tail, rfl, rfl, hmove⟩

theorem front_follows {front : List Move} (hflat : Aligned flat)
    (hfinal : middle.files.toList <+: final.files.toList)
    (h : front.foldlM (perform files (expandFile files options limit opened) path
      (flat.enter path content).2 content) (flat.enter path content).1 = .ok middle) :
    Follows final.paths.idxOf flat middle
      (.enter path :: front.flatMap (eventsOf files (trace files options limit) path content)) := by
  have hgrown := (foldlM_grown expandFile_grown h).trans hfinal
  exact (Follows.enter flat path content).append
    (foldlM_follows (expandFile_follows files options final limit) (idxOf_enter hgrown)
      (hflat.enter path content) hfinal h)

theorem Leads.exists_past (h : Leads files options entry next) (hentry : Aligned entry.flat)
    (hfinal : next.flat.files.toList <+: final.files.toList) :
    ∃ past future, trace files options entry.limit entry.path =
        past ++ trace files options next.limit next.path ++ future ∧
      Follows final.paths.idxOf entry.flat next.flat past := by
  cases h with
  | @follow limit start stop opened flat middle path content name target front rest hopen hread
      hmoves hfront hname htarget =>
      refine ⟨_, rest.flatMap (eventsOf files (trace files options limit) path content), ?_,
        front_follows hentry hfinal hfront⟩
      rw [trace_eq hread, hmoves, List.flatMap_append, List.flatMap_cons, eventsOf,
        target?_eq_some hname htarget]
      simp

theorem exists_trace_eq (h : entry.expand files options = .ok flat) :
    ∃ events, trace files options entry.limit entry.path = .enter entry.path :: events := by
  obtain ⟨-, content, depth, hdepth, hread, -⟩ := expandFile_eq_ok h
  exact ⟨_, hdepth ▸ trace_eq hread⟩

theorem exists_follow_of_event {inner : String → List Event} {move : Move} {other : String}
    {before after : List Event}
    (h : eventsOf files inner path content move = before ++ .enter other :: after) :
    ∃ start stop target, move = .follow start stop ∧
      target? files path content start stop = some target ∧
      inner target = before ++ .enter other :: after := by
  have hmem : .enter other ∈ eventsOf files inner path content move := by simp [h]
  cases move with
  | keep start stop => simp [eventsOf] at hmem
  | comment start indentation => cases indentation <;> simp [eventsOf] at hmem
  | follow start stop =>
      cases htarget : target? files path content start stop with
      | none => simp [eventsOf, htarget] at hmem
      | some target =>
          rw [eventsOf, htarget] at h
          exact ⟨start, stop, target, rfl, htarget, h⟩

/-- Behind its own entry an expansion enters files only where it leads to another. -/
theorem exists_leads_of_event {start : String} {first : Event}
    (h : expandFile files options (limit + 1) opened flat start = .ok flat')
    (hflat : Aligned flat) (hfinal : flat'.files.toList <+: final.files.toList)
    (hpast : trace files options (limit + 1) start = first :: past ++ .enter path :: future) :
    ∃ next before after rest, Leads files options ⟨limit + 1, opened, flat, start⟩ next ∧
      next.limit = limit ∧ Follows final.paths.idxOf flat next.flat before ∧
      first :: past = before ++ after ∧
      trace files options next.limit next.path = after ++ .enter path :: rest := by
  obtain ⟨hopen, content, depth, hdepth, hread, hfold⟩ := expandFile_eq_ok h
  obtain rfl := Nat.succ.inj hdepth
  rw [trace_eq hread, List.cons_append] at hpast
  obtain ⟨rfl, hbehind⟩ := List.cons.inj hpast
  obtain ⟨front, move, rest, before, after, hmoves, rfl, hmove⟩ := exists_move_of_event hbehind
  obtain ⟨low, high, target, rfl, htarget, hinner⟩ := exists_follow_of_event hmove
  rw [hmoves, List.foldlM_append] at hfold
  obtain ⟨middle, hfront, hfold⟩ := Results.bind_eq_ok.1 hfold
  rw [List.foldlM_cons] at hfold
  obtain ⟨reached, hperform, hrest⟩ := Results.bind_eq_ok.1 hfold
  obtain ⟨name, found, hname, hfound, hexpand⟩ := perform_follow_eq_ok hperform
  obtain rfl := Option.some.inj (htarget.symm.trans (target?_eq_some hname hfound))
  have hreached := (foldlM_grown expandFile_grown hrest).trans hfinal
  have hgrown := (expandFile_grown hexpand).trans hreached
  exact ⟨_, _, before, after, .follow hopen hread hmoves hfront hname hfound, rfl,
    front_follows hflat hgrown hfront, rfl, hinner⟩

/-- An expansion leads to an entry wherever its events enter a file. -/
theorem exists_reached_of_event (h : entry.expand files options = .ok flat')
    (hentry : Aligned entry.flat) (hfinal : flat'.files.toList <+: final.files.toList)
    (hpast : trace files options entry.limit entry.path = past ++ .enter path :: future) :
    ∃ next, Relation.ReflTransGen (Leads files options) entry next ∧ next.path = path ∧
      Follows final.paths.idxOf entry.flat next.flat past := by
  obtain ⟨limit, opened, flat, start⟩ := entry
  induction limit generalizing opened flat flat' start past future with
  | zero => simp [trace] at hpast
  | succ limit ih =>
      cases past with
      | nil =>
          obtain ⟨events, hevents⟩ := exists_trace_eq h
          obtain ⟨hpath, -⟩ := List.cons.inj (hevents.symm.trans hpast)
          exact ⟨_, .refl, Event.enter.inj hpath, .refl flat⟩
      | cons first past =>
          obtain ⟨⟨depth, inside, found, target⟩, before, after, rest, hleads, rfl, hbefore, hsplit,
            hafter⟩ := exists_leads_of_event h hentry hfinal hpast
          obtain ⟨reached, hreached, hgrown⟩ := hleads.exists_expand h
          obtain ⟨next, hnext, hpath, hfollows⟩ := ih (hgrown.trans hfinal) inside found target
            hreached (hleads.aligned hentry) hafter
          exact ⟨next, .head hleads hnext, hpath, hsplit ▸ hbefore.append hfollows⟩

/-! ## Runs -/

/-- A visit writes a range of its file: the moves before it are performed, and it is kept. -/
inductive Writes (files : FileSet) (options : Options) : Entry → Nat → Nat → Flat → Flat → Prop
    where
  | keep {limit start stop : Nat} {opened : List String} {flat middle after : Flat}
      {path content : String} {front rest : List Move} (hread : files.read path = .ok content)
      (hmoves : moves options content = front ++ .keep start stop :: rest)
      (hfront : front.foldlM
        (perform files (expandFile files options limit (path :: opened)) path
          (flat.enter path content).2 content) (flat.enter path content).1 = .ok middle)
      (hkeep : perform files (expandFile files options limit (path :: opened)) path
        (flat.enter path content).2 content middle (.keep start stop) = .ok after) :
      Writes files options ⟨limit + 1, opened, flat, path⟩ start stop middle after

/-- How the files of a flat source are numbered. The number of a file is the index of its
path among the registered ones. -/
structure Numbered (files : FileSet) (options : Options) (main root : String) (flat : Flat) :
    Prop where
  distinct : flat.paths.Nodup
  first : flat.paths.head? = some root
  order : flat.paths = (entered (trace files options files.depth root)).eraseDups
  /-- Each entry of the run stands at its place among the events. -/
  placed : ∀ entry, Entered files options main entry → ∃ past future,
    trace files options files.depth root = past ++ .enter entry.path :: future ∧
      entry.flat.paths = (entered past).eraseDups
  /-- At each place where a file is entered there is an entry of the run. -/
  reached : ∀ past path future,
    trace files options files.depth root = past ++ .enter path :: future →
      ∃ entry, Entered files options main entry ∧ entry.path = path ∧
        entry.flat.paths = (entered past).eraseDups
  /-- A file that is entered is registered, whatever stays of it. -/
  registered : ∀ entry, Entered files options main entry → ∃ content,
    files.read entry.path = .ok content ∧ ⟨entry.path, content⟩ ∈ flat.files
  written : ∀ entry start stop before after, Entered files options main entry →
    Writes files options entry start stop before after →
      after.entries = before.entries ++ provenances (flat.paths.idxOf entry.path) start stop
  table : flat.entries = tableOf flat.paths.idxOf (trace files options files.depth root)

theorem Follows.paths_eq {events : List Event} (h : Follows number empty flat events) :
    flat.paths = (entered events).eraseDups :=
  h.paths [] rfl

theorem Entered.exists_content (h : Entered files options main entry)
    (hflat : expand files options main = .ok flat) :
    ∃ content, files.read entry.path = .ok content ∧
      (entry.flat.enter entry.path content).1.files.toList <+: flat.files.toList := by
  obtain ⟨after, hafter, hgrown⟩ := h.exists_expand hflat
  obtain ⟨-, content, _, -, hread, hfold⟩ := expandFile_eq_ok hafter
  exact ⟨content, hread, (foldlM_grown expandFile_grown hfold).trans hgrown⟩

theorem Entered.grown (h : Entered files options main entry)
    (hflat : expand files options main = .ok flat) :
    entry.flat.files.toList <+: flat.files.toList := by
  obtain ⟨content, -, hgrown⟩ := h.exists_content hflat
  exact (enter_spec entry.flat entry.path content).1.trans hgrown

theorem Entered.exists_past (h : Entered files options main entry)
    (hflat : expand files options main = .ok flat) (hroot : findFile files main none = .ok root) :
    ∃ past future, trace files options files.depth root =
        past ++ trace files options entry.limit entry.path ++ future ∧
      Follows flat.paths.idxOf empty entry.flat past := by
  obtain ⟨path, hpath, hleads⟩ := h
  obtain rfl := Except.ok.inj (hpath.symm.trans hroot)
  induction hleads with
  | refl => exact ⟨[], [], by simp, .refl empty⟩
  | @tail entry next hentry hnext ih =>
      obtain ⟨past, future, htrace, hpast⟩ := ih
      have hentered : Entered files options main entry := ⟨path, hpath, hentry⟩
      have hreached : Entered files options main next := ⟨path, hpath, hentry.tail hnext⟩
      have hgrown := hreached.grown hflat
      obtain ⟨before, after, hbefore, hfollows⟩ := hnext.exists_past hentered.aligned hgrown
      refine ⟨past ++ before, after ++ future, ?_, hpast.append hfollows⟩
      rw [htrace, hbefore]
      simp only [List.append_assoc]

theorem exists_entered_of_event (hflat : expand files options main = .ok flat)
    (hroot : findFile files main none = .ok root)
    (h : trace files options files.depth root = past ++ .enter path :: future) :
    ∃ entry, Entered files options main entry ∧ entry.path = path ∧
      Follows flat.paths.idxOf empty entry.flat past := by
  rw [expand, hroot] at hflat
  have hentry : Entry.expand files options ⟨files.depth, [], empty, root⟩ = .ok flat := hflat
  obtain ⟨entry, hleads, hpath, hfollows⟩ :=
    exists_reached_of_event hentry aligned_empty List.prefix_rfl h
  exact ⟨entry, ⟨root, hroot, hleads⟩, hpath, hfollows⟩

theorem follows_of_expand (hflat : expand files options main = .ok flat)
    (hroot : findFile files main none = .ok root) :
    Follows flat.paths.idxOf empty flat (trace files options files.depth root) := by
  rw [expand, hroot] at hflat
  exact expandFile_follows files options flat files.depth hflat aligned_empty List.prefix_rfl

theorem Writes.entries_eq {start stop : Nat} {before after : Flat}
    (h : Writes files options entry start stop before after)
    (hread : files.read entry.path = .ok content)
    (hfinal : (entry.flat.enter entry.path content).1.files.toList <+: final.files.toList) :
    after.entries = before.entries ++ provenances (final.paths.idxOf entry.path) start stop := by
  cases h with
  | @keep limit start stop opened flat middle after path content front rest hsame hmoves hfront
      hkeep =>
      obtain rfl := Except.ok.inj (hread.symm.trans hsame)
      obtain ⟨-, -, hentries⟩ := keep_eq_ok (Results.mapError_eq_ok.1 hkeep)
      rw [hentries, idxOf_enter hfinal]

/-- A flat source that is made registers the files in the order in which the run enters
them for the first time, the main file first, and each of them once. What the run writes
during a visit has the number of the visited file. -/
theorem expand_numbered (h : expand files options main = .ok flat) :
    ∃ root, findFile files main none = .ok root ∧ Numbered files options main root flat := by
  obtain ⟨root, hroot, hexpand⟩ := Results.bind_eq_ok.1 h
  have hfollows := follows_of_expand h hroot
  have hentry : Entry.expand files options ⟨files.depth, [], empty, root⟩ = .ok flat := hexpand
  refine ⟨root, hroot, ?_⟩
  constructor
  case distinct => exact hfollows.paths_eq ▸ nodup_eraseDups _
  case first =>
    obtain ⟨events, hevents⟩ := exists_trace_eq hentry
    rw [hfollows.paths_eq, hevents, entered_enter, List.eraseDups_cons, List.head?_cons]
  case order => exact hfollows.paths_eq
  case placed =>
    intro entry hentered
    obtain ⟨after, hafter, -⟩ := hentered.exists_expand h
    obtain ⟨events, hevents⟩ := exists_trace_eq hafter
    obtain ⟨past, future, htrace, hpast⟩ := hentered.exists_past h hroot
    refine ⟨past, events ++ future, ?_, hpast.paths_eq⟩
    rw [htrace, hevents, List.append_assoc, List.cons_append]
  case reached =>
    intro past path future hpast
    obtain ⟨entry, hentered, hpath, hfollows⟩ := exists_entered_of_event h hroot hpast
    exact ⟨entry, hentered, hpath, hfollows.paths_eq⟩
  case registered =>
    intro entry hentered
    obtain ⟨content, hread, hgrown⟩ := hentered.exists_content h
    obtain ⟨-, -, -, ⟨copy, hcopy, hpath⟩, -⟩ := enter_spec entry.flat entry.path content
    have hmem : copy ∈ flat.files :=
      Array.mem_of_getElem? (getElem?_files_of_grown hgrown hcopy)
    have hsame := (faithful_of_expand h).copies copy hmem
    rw [hpath, hread] at hsame
    obtain rfl := Except.ok.inj hsame
    exact ⟨copy.content, hread, hpath ▸ hmem⟩
  case written =>
    intro entry start stop before after hentered hwrites
    obtain ⟨content, hread, hgrown⟩ := hentered.exists_content h
    exact hwrites.entries_eq hread hgrown
  case table => exact hfollows.entries

/-- A file that is included twice and includes another, and one that is a comment, which
is included in an argument that stays. -/
def orderedFiles : MemoryFiles :=
  .ofList "/" [("main.tex", "\\input\x7ba\x7d\\added\x7b\\input\x7bb\x7d\x7d\\input\x7ba\x7d"),
    ("a.tex", "A\\input\x7bc\x7d"), ("b.tex", "  % x\n"), ("c.tex", "C")]

def orderedFlat : Flat where
  text := "ACAC"
  files := #[⟨"/main.tex", "\\input\x7ba\x7d\\added\x7b\\input\x7bb\x7d\x7d\\input\x7ba\x7d"⟩,
    ⟨"/a.tex", "A\\input\x7bc\x7d"⟩, ⟨"/c.tex", "C"⟩, ⟨"/b.tex", "  % x\n"⟩]
  origins := #[some ⟨1, 0⟩, some ⟨2, 0⟩, some ⟨1, 0⟩, some ⟨2, 0⟩]

theorem numbered_orderedFlat :
    expand orderedFiles.toFileSet .standard "main.tex" = .ok orderedFlat ∧
      orderedFlat.paths = ["/main.tex", "/a.tex", "/c.tex", "/b.tex"] ∧
      entered (trace orderedFiles.toFileSet .standard orderedFiles.toFileSet.depth "/main.tex") =
        ["/main.tex", "/a.tex", "/c.tex", "/b.tex", "/a.tex", "/c.tex"] ∧
      ∃ root, findFile orderedFiles.toFileSet "main.tex" none = .ok root ∧
        Numbered orderedFiles.toFileSet .standard "main.tex" root orderedFlat := by
  have hexpand : expand orderedFiles.toFileSet .standard "main.tex" = .ok orderedFlat := by
    decide +kernel
  exact ⟨hexpand, by decide +kernel, by decide +kernel, expand_numbered hexpand⟩

end LatexOrigins.Flat
