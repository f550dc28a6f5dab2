import LatexOrigins.Proofs.Flat.Building
import Mathlib.Logic.Relation

/-!
# The files that a run enters

A run enters the main file, and a file that is expanded leads to another wherever one
of its moves follows an inclusion. What a step from one entry to the next keeps holds of
every entry of a run. If the run succeeds, every file that is entered is expanded; if it
fails at a cycle, there is an entry at which a file is open already.
-/

namespace LatexOrigins.Flat

/-- A file that is entered: the files that are open around it, the innermost first, the
flat source made so far, and how much deeper files may nest. -/
structure Entry where
  limit : Nat
  opened : List String
  flat : Flat
  path : String

def Entry.expand (files : FileSet) (options : Options) (entry : Entry) : Except LoadError Flat :=
  expandFile files options entry.limit entry.opened entry.flat entry.path

/-- Expanding a file leads to entering another: the file is not open, the moves before an
inclusion are performed, and the name that stands there is found. -/
inductive Leads (files : FileSet) (options : Options) : Entry → Entry → Prop where
  | follow {limit start stop : Nat} {opened : List String} {flat middle : Flat}
      {path content name target : String} {front rest : List Move} (hopen : path ∉ opened)
      (hread : files.read path = .ok content)
      (hmoves : moves options content = front ++ .follow start stop :: rest)
      (hfront : front.foldlM
        (perform files (expandFile files options limit (path :: opened)) path
          (flat.enter path content).2 content) (flat.enter path content).1 = .ok middle)
      (hname : Text.slice? content start stop = some name)
      (htarget : findFile files name (some path) = .ok target) :
      Leads files options ⟨limit + 1, opened, flat, path⟩ ⟨limit, path :: opened, middle, target⟩

/-- The entries of a run: that of the main file, and those that they lead to. -/
def Entered (files : FileSet) (options : Options) (main : String) (entry : Entry) : Prop :=
  ∃ path, findFile files main none = .ok path ∧
    Relation.ReflTransGen (Leads files options) ⟨files.depth, [], empty, path⟩ entry

variable {files : FileSet} {options : Options} {main path content : String}
  {opened : List String} {limit id : Nat} {flat flat' : Flat} {entry next : Entry} {e : LoadError}

/-- What holds of the entry of the main file and is kept along the run holds of every
entry. -/
theorem Entered.induct {motive : Entry → Prop} (h : Entered files options main entry)
    (start : ∀ path, findFile files main none = .ok path → motive ⟨files.depth, [], empty, path⟩)
    (step : ∀ {entry next}, Leads files options entry next → motive entry → motive next) :
    motive entry := by
  obtain ⟨path, hpath, hleads⟩ := h
  induction hleads with
  | refl => exact start path hpath
  | tail _ hnext ih => exact step hnext ih

/-! ## Runs that succeed -/

theorem Leads.exists_expand (h : Leads files options entry next)
    (hentry : entry.expand files options = .ok flat) :
    ∃ flat', next.expand files options = .ok flat' ∧ flat'.files.toList <+: flat.files.toList := by
  cases h with
  | @follow depth start stop opened before middle path content name target front rest hopen hread
      hmoves hfront hname htarget =>
      obtain ⟨-, _, _, hdepth, hsame, hfold⟩ := expandFile_eq_ok hentry
      obtain rfl := Nat.succ.inj hdepth
      obtain rfl := Except.ok.inj (hread.symm.trans hsame)
      rw [hmoves, List.foldlM_append, hfront, Results.ok_bind, List.foldlM_cons] at hfold
      obtain ⟨after, hafter, hrest⟩ := Results.bind_eq_ok.1 hfold
      obtain ⟨_, _, hslice, hfound, hexpand⟩ := perform_follow_eq_ok hafter
      obtain rfl := Option.some.inj (hname.symm.trans hslice)
      obtain rfl := Except.ok.inj (htarget.symm.trans hfound)
      exact ⟨after, hexpand, foldlM_grown expandFile_grown hrest⟩

/-- In a run that succeeds every file that is entered is expanded, and what it registers
stays registered. -/
theorem Entered.exists_expand (h : Entered files options main entry)
    (hflat : expand files options main = .ok flat) :
    ∃ flat', entry.expand files options = .ok flat' ∧
      flat'.files.toList <+: flat.files.toList := by
  refine h.induct
    (motive := fun entry => ∃ flat', entry.expand files options = .ok flat' ∧
      flat'.files.toList <+: flat.files.toList)
    (fun path hpath => ?_) fun hleads hentry => ?_
  · rw [expand, hpath] at hflat
    exact ⟨flat, hflat, List.prefix_rfl⟩
  · obtain ⟨before, hbefore, hgrown⟩ := hentry
    obtain ⟨after, hafter, hgrown'⟩ := hleads.exists_expand hbefore
    exact ⟨after, hafter, hgrown'.trans hgrown⟩

/-! ## Runs that fail at a cycle -/

theorem findFile_ne_cyclic {name repeated : String} {includer : Option String}
    {chain : List String} :
    findFile files name includer ≠ .error (.cyclicInclusion repeated chain) := by
  unfold findFile
  split <;> exact nofun

theorem perform_eq_cyclic {enter : Flat → String → Except LoadError Flat} {move : Move}
    {repeated : String} {chain : List String}
    (h : perform files enter path id content flat move =
      .error (.cyclicInclusion repeated chain)) :
    ∃ start stop name target, move = .follow start stop ∧
      Text.slice? content start stop = some name ∧
      findFile files name (some path) = .ok target ∧
      enter flat target = .error (.cyclicInclusion repeated chain) := by
  cases move with
  | keep start stop =>
      rw [perform] at h
      cases hkeep : flat.keep id content start stop with
      | error | ok =>
          rw [hkeep] at h
          cases h
  | comment start indentation =>
      cases indentation with
      | none => cases h
      | some count =>
          rw [perform] at h
          cases hretract : flat.retract count with
          | error | ok =>
              rw [hretract] at h
              cases h
  | follow start stop =>
      simp only [perform] at h
      split at h
      · cases h
      · next name hname =>
        rcases Results.bind_eq_error.1 h with h | ⟨target, htarget, h⟩
        · exact absurd h findFile_ne_cyclic
        · exact ⟨start, stop, name, target, rfl, hname, htarget, h⟩

/-- If an expansion of a file that is not open fails at a cycle, so does one that it
leads to. -/
theorem exists_leads_of_not_mem {repeated : String} {chain : List String} (hopen : path ∉ opened)
    (h : expandFile files options limit opened flat path =
      .error (.cyclicInclusion repeated chain)) :
    ∃ next, Leads files options ⟨limit, opened, flat, path⟩ next ∧ limit = next.limit + 1 ∧
      next.expand files options = .error (.cyclicInclusion repeated chain) := by
  rw [expandFile, if_neg (by simpa using hopen)] at h
  rcases Results.bind_eq_error.1 h with hread | ⟨content, hread, h⟩
  · unfold FileSet.read at hread
    split at hread <;> cases hread
  · cases limit with
    | zero => cases h
    | succ depth =>
        obtain ⟨front, move, rest, middle, hmoves, hfront, hfails⟩ :=
          Results.foldlM_eq_error_split h
        obtain ⟨start, stop, name, target, rfl, hname, htarget, hcyclic⟩ :=
          perform_eq_cyclic hfails
        exact ⟨⟨depth, path :: opened, middle, target⟩,
          .follow hopen hread hmoves hfront hname htarget, rfl, hcyclic⟩

/-- An expansion that fails at a cycle leads to an entry of a file that is open. -/
theorem exists_reached_of_cyclic {repeated : String} {chain : List String}
    (h : entry.expand files options = .error (.cyclicInclusion repeated chain)) :
    ∃ last, Relation.ReflTransGen (Leads files options) entry last ∧ last.path = repeated ∧
      repeated ∈ last.opened ∧ chain = (repeated :: last.opened).reverse := by
  obtain ⟨limit, opened, flat, path⟩ := entry
  induction limit using Nat.strongRecOn generalizing opened flat path with
  | ind limit ih =>
      by_cases hopen : path ∈ opened
      · rw [Entry.expand, expandFile, if_pos (by simpa using hopen)] at h
        obtain ⟨rfl, rfl⟩ := LoadError.cyclicInclusion.inj (Except.error.inj h)
        exact ⟨_, .refl, rfl, hopen, rfl⟩
      · obtain ⟨next, hleads, rfl, hcyclic⟩ := exists_leads_of_not_mem hopen h
        obtain ⟨last, hlast, hrepeated⟩ := ih next.limit (Nat.lt_succ_self _) _ _ _ hcyclic
        exact ⟨last, .head hleads hlast, hrepeated⟩

theorem exists_entered_of_cyclic {repeated : String} {chain : List String}
    (h : expand files options main = .error (.cyclicInclusion repeated chain)) :
    ∃ entry, Entered files options main entry ∧ entry.path = repeated ∧ repeated ∈ entry.opened ∧
      chain = (repeated :: entry.opened).reverse := by
  rcases Results.bind_eq_error.1 h with h | ⟨path, hpath, h⟩
  · exact absurd h findFile_ne_cyclic
  · have hentry : Entry.expand files options ⟨files.depth, [], empty, path⟩ =
        .error (.cyclicInclusion repeated chain) := h
    obtain ⟨last, hlast, hrepeated⟩ := exists_reached_of_cyclic hentry
    exact ⟨last, ⟨path, hpath, hlast⟩, hrepeated⟩

end LatexOrigins.Flat
