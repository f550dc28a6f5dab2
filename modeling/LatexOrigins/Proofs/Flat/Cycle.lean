import LatexOrigins.Proofs.Flat.Directive
import LatexOrigins.Proofs.Flat.Run
import LatexOrigins.Proofs.Flat.Total
import Mathlib.Data.List.Chain
import Mathlib.Data.List.Nodup

/-!
# Cycles of inclusions

The files that are open include one another, from the main file inwards, and none is open
twice. So nesting ends at the number of files, whatever bound is set to it beyond, and a
run that fails at a cycle names one that is there. In a run that succeeds no inclusion
leads into an open file.
-/

namespace LatexOrigins.Flat

variable {files : FileSet} {options : Options} {main path : String} {chain : List String}
  {entry next : Entry}

/-- The content of one file holds a directive whose name, looked up from that file, is the
other file. -/
def Includes (files : FileSet) (options : Options) (includer path : String) : Prop :=
  ∃ content name, files.read includer = .ok content ∧ Directive options content name ∧
    files.resolve name (some includer) = some path

/-- A chain of inclusions that leads from the main file to a file and back to it. -/
structure Cycle (files : FileSet) (options : Options) (main path : String)
    (chain : List String) : Prop where
  starts : ∃ root, findFile files main none = .ok root ∧ chain.head? = some root
  ends : chain.getLast? = some path
  once : chain.dropLast.count path = 1
  distinct : chain.dropLast.Nodup
  steps : chain.IsChain (Includes files options)

/-! ## Open files -/

/-- The open files and the one that is entered, the innermost first. -/
structure Stacked (files : FileSet) (options : Options) (main : String) (entry : Entry) :
    Prop where
  distinct : entry.opened.Nodup
  bottom : ∃ root, findFile files main none = .ok root ∧
    (entry.path :: entry.opened).getLast? = some root
  steps : (entry.path :: entry.opened).IsChain fun inner outer => Includes files options outer inner

theorem resolve_of_findFile {name target : String} {includer : Option String}
    (h : findFile files name includer = .ok target) :
    files.resolve name includer = some target := by
  unfold findFile at h
  split at h
  · next path hpath =>
    obtain rfl := Except.ok.inj h
    exact hpath
  · cases h

theorem Stacked.leads (h : Stacked files options main entry)
    (hleads : Leads files options entry next) : Stacked files options main next := by
  cases hleads with
  | @follow limit start stop opened flat middle path content name target front rest hopen hread
      hmoves hfront hname htarget =>
      have hmove : .follow start stop ∈ moves options content := by simp [hmoves]
      obtain ⟨root, hroot, hbottom⟩ := h.bottom
      refine ⟨List.nodup_cons.2 ⟨hopen, h.distinct⟩, ⟨root, hroot, ?_⟩, ?_⟩
      · rw [List.getLast?_cons_cons]
        exact hbottom
      · exact List.isChain_cons_cons.2 ⟨⟨content, name, hread, directive_of_mem hmove hname,
          resolve_of_findFile htarget⟩, h.steps⟩

theorem Entered.stacked (h : Entered files options main entry) :
    Stacked files options main entry :=
  h.induct (fun path hpath => ⟨List.nodup_nil, ⟨path, hpath, rfl⟩, List.isChain_singleton _⟩)
    fun hleads hstacked => hstacked.leads hleads

/-- Going back into an open file closes a cycle. -/
theorem Stacked.cycle (h : Stacked files options main entry) (hopen : entry.path ∈ entry.opened) :
    Cycle files options main entry.path (entry.path :: entry.opened).reverse := by
  have hfront : (entry.path :: entry.opened).reverse.dropLast = entry.opened.reverse := by
    rw [List.reverse_cons, List.dropLast_concat]
  have hdistinct : entry.opened.reverse.Nodup := List.nodup_reverse.2 h.distinct
  obtain ⟨root, hroot, hbottom⟩ := h.bottom
  refine ⟨⟨root, hroot, ?_⟩, ?_, ?_, ?_, ?_⟩
  · rw [List.head?_reverse, hbottom]
  · rw [List.getLast?_reverse, List.head?_cons]
  · rw [hfront]
    exact List.count_eq_one_of_mem hdistinct (List.mem_reverse.2 hopen)
  · rw [hfront]
    exact hdistinct
  · exact List.isChain_reverse.2 h.steps

theorem cycle_of_eq_error
    (h : expand files options main = .error (.cyclicInclusion path chain)) :
    Cycle files options main path chain := by
  obtain ⟨entry, hentered, rfl, hopen, rfl⟩ := exists_entered_of_cyclic h
  exact hentered.stacked.cycle hopen

theorem Entered.not_mem_opened {flat : Flat} (h : Entered files options main entry)
    (hflat : expand files options main = .ok flat) : entry.path ∉ entry.opened := by
  obtain ⟨after, hafter, -⟩ := h.exists_expand hflat
  exact (expandFile_eq_ok hafter).1

/-! ## The bound on the depth -/

theorem perform_congr {enter enter' : Flat → String → Except LoadError Flat} {content : String}
    {id : Nat} (h : ∀ flat target, files.contains target = true →
      enter flat target = enter' flat target) :
    perform files enter path id content = perform files enter' path id content := by
  funext flat move
  cases move with
  | keep => rfl
  | comment start indentation => cases indentation <;> rfl
  | follow start stop =>
      simp only [perform]
      split
      · rfl
      · refine bind_congr_ok fun target htarget => ?_
        exact h flat target (contains_of_findFile htarget)

/-- A bound that lets every file be open at once never cuts a run short. -/
theorem expandFile_add {files : MemoryFiles} {limit : Nat} {opened : List String} {flat : Flat}
    (hdepth : WithinDepth files opened limit) (hpath : files.toFileSet.contains path = true)
    (more : Nat) : expandFile files.toFileSet options (limit + more) opened flat path =
      expandFile files.toFileSet options limit opened flat path := by
  induction limit generalizing opened flat path with
  | zero =>
      by_cases hopen : path ∈ opened
      · have hcontains : opened.contains path = true := by simpa using hopen
        rw [expandFile, expandFile, if_pos hcontains, if_pos hcontains]
      · exact absurd (hdepth.pos hopen hpath) (Nat.lt_irrefl 0)
  | succ limit ih =>
      rw [Nat.succ_add, expandFile, expandFile]
      split
      · rfl
      · next hopen =>
        have hopen : path ∉ opened := by simpa using hopen
        refine bind_congr_ok fun content _ => ?_
        have hsame : perform files.toFileSet
            (expandFile files.toFileSet options (limit + more) (path :: opened)) path
              (flat.enter path content).2 content =
            perform files.toFileSet (expandFile files.toFileSet options limit (path :: opened)) path
              (flat.enter path content).2 content :=
          perform_congr fun _ _ htarget => ih (hdepth.cons hopen hpath) htarget
        simp only [hsame]

/-- Flattening files in memory ends, in a flat source or at an inclusion that cannot be
followed, and would end so under any greater bound on the nesting. If it ends at a cycle,
that is a chain of inclusions from the main file to a file and back; if it succeeds, no
file has been entered while it was open. -/
theorem expand_ends (files : MemoryFiles) (options : Options) (main : String) :
    ((∃ flat, expand files.toFileSet options main = .ok flat) ∨
      ∃ e, expand files.toFileSet options main = .error e ∧ e.AtInclusion) ∧
    (∀ path limit, findFile files.toFileSet main none = .ok path →
      files.toFileSet.depth ≤ limit →
      expandFile files.toFileSet options limit [] empty path =
        expand files.toFileSet options main) ∧
    (∀ path chain, expand files.toFileSet options main = .error (.cyclicInclusion path chain) →
      Cycle files.toFileSet options main path chain) ∧
    ∀ flat, expand files.toFileSet options main = .ok flat →
      ∀ entry, Entered files.toFileSet options main entry → entry.path ∉ entry.opened := by
  refine ⟨?_, ?_, fun _ _ => cycle_of_eq_error, fun _ hflat _ hentered =>
    hentered.not_mem_opened hflat⟩
  · cases h : expand files.toFileSet options main with
    | ok flat => exact Or.inl ⟨flat, rfl⟩
    | error e => exact Or.inr ⟨e, rfl, expand_eq_error h⟩
  · intro path limit hpath hle
    obtain ⟨more, rfl⟩ := Nat.exists_eq_add_of_le hle
    rw [expand, hpath, expandFile_add (withinDepth_nil files) (contains_of_findFile hpath)]
    rfl

/-- Two files that include each other. -/
def loopFiles : MemoryFiles :=
  .ofList "/" [("main.tex", "\\input\x7ba\x7d"), ("a.tex", "x\\input\x7bb\x7d"),
    ("b.tex", "\\input\x7b a \x7d")]

theorem expand_ends_loopFiles :
    expand loopFiles.toFileSet .standard "main.tex" =
        .error (.cyclicInclusion "/a.tex" ["/main.tex", "/a.tex", "/b.tex", "/a.tex"]) ∧
      Cycle loopFiles.toFileSet .standard "main.tex" "/a.tex"
        ["/main.tex", "/a.tex", "/b.tex", "/a.tex"] := by
  have hloop : expand loopFiles.toFileSet .standard "main.tex" =
      .error (.cyclicInclusion "/a.tex" ["/main.tex", "/a.tex", "/b.tex", "/a.tex"]) := by
    decide +kernel
  obtain ⟨-, -, hcycle, -⟩ := expand_ends loopFiles .standard "main.tex"
  exact ⟨hloop, hcycle _ _ hloop⟩

end LatexOrigins.Flat
