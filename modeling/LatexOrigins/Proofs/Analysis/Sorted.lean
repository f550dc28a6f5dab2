import LatexOrigins.Analysis.Analyzer
import LatexOrigins.Pattern.Basic
import LatexOrigins.Proofs.Document.Tracing
import LatexOrigins.Proofs.Origin.Order

/-!
# What an analysis reports

Preparing a filter replaces whatever it has collected before, so an analyzer that has seen
other documents reports what a fresh one does. All filters together drop the problems that
lie in a region of one of them. What is left is sorted stably, and a list has only one
stable sort.
-/

namespace LatexOrigins

/-! ## Stable sorts -/

/-- A list of problems sorted by origin, in which problems with equal origins stand in the
order in which they were found. -/
structure StablySorted (found sorted : List Problem) : Prop where
  perm : sorted.Perm found
  ordered : sorted.Pairwise fun p q => p.origin.le q.origin = true
  stable : ∀ o : Origin, sorted.filter (·.origin == o) = found.filter (·.origin == o)

namespace StablySorted

variable {found sorted other : List Problem}

theorem mergeSort (found : List Problem) :
    StablySorted found (found.mergeSort fun p q => p.origin.le q.origin) := by
  have htrans (p q r : Problem) (hpq : p.origin.le q.origin = true)
      (hqr : q.origin.le r.origin = true) : p.origin.le r.origin = true :=
    Origin.le_trans hpq hqr
  have htotal (p q : Problem) : (p.origin.le q.origin || q.origin.le p.origin) = true :=
    Origin.le_total p.origin q.origin
  have hperm := List.mergeSort_perm found fun p q => p.origin.le q.origin
  refine ⟨hperm, List.pairwise_mergeSort htrans htotal found, fun o => ?_⟩
  -- Problems on a level are sorted as they stand, so sorting keeps them as they stand.
  have hlevel : (found.filter (·.origin == o)).Pairwise fun p q =>
      p.origin.le q.origin = true := by
    refine List.pairwise_of_forall_mem_list fun p hp q hq => ?_
    have hpo := (Origin.beq_iff_le.1 (List.mem_filter.1 hp).2).1
    have hqo := (Origin.beq_iff_le.1 (List.mem_filter.1 hq).2).2
    exact Origin.le_trans hpo hqo
  have hsub := (List.sublist_mergeSort htrans htotal hlevel List.filter_sublist).filter
    (·.origin == o)
  rw [List.filter_filter] at hsub
  simp only [Bool.and_self] at hsub
  exact (hsub.eq_of_length (hperm.filter _).length_eq.symm).symm

/-- A sorted list is determined by the order on each level: the first problem of the
list is the first of its level. -/
theorem eq_of_levels (hperm : sorted.Perm other)
    (hsorted : sorted.Pairwise fun p q => p.origin.le q.origin = true)
    (hother : other.Pairwise fun p q => p.origin.le q.origin = true)
    (hlevels : ∀ o : Origin, sorted.filter (·.origin == o) = other.filter (·.origin == o)) :
    sorted = other := by
  induction sorted generalizing other with
  | nil => exact hperm.nil_eq
  | cons p rest ih =>
      cases other with
      | nil => exact hperm.eq_nil
      | cons q others =>
          have hfirst {a : Problem} {l : List Problem} {b : Problem}
              (hl : (a :: l).Pairwise fun p q => p.origin.le q.origin = true)
              (hb : b ∈ a :: l) : a.origin.le b.origin = true := by
            rcases List.mem_cons.1 hb with rfl | hb
            · exact Origin.le_refl _
            · exact (List.pairwise_cons.1 hl).1 b hb
          have hpq := hfirst hsorted (hperm.mem_iff.2 List.mem_cons_self)
          have hqp := hfirst hother (hperm.mem_iff.1 List.mem_cons_self)
          have hp : (p.origin == p.origin) = true :=
            Origin.beq_iff_le.2 ⟨Origin.le_refl _, Origin.le_refl _⟩
          have hq : (q.origin == p.origin) = true := Origin.beq_iff_le.2 ⟨hqp, hpq⟩
          have hlevel := hlevels p.origin
          simp only [List.filter_cons, hp, hq, if_true] at hlevel
          obtain ⟨rfl, -⟩ := List.cons.inj hlevel
          have hrest : rest = others := by
            refine ih hperm.cons_inv (List.pairwise_cons.1 hsorted).2
              (List.pairwise_cons.1 hother).2 fun o => ?_
            have hlevel := hlevels o
            by_cases ho : (p.origin == o) = true
            · rw [List.filter_cons, List.filter_cons, if_pos ho, if_pos ho] at hlevel
              exact (List.cons.inj hlevel).2
            · rwa [List.filter_cons, List.filter_cons, if_neg ho, if_neg ho] at hlevel
          rw [hrest]

theorem unique (h : StablySorted found sorted) (hother : StablySorted found other) :
    sorted = other :=
  eq_of_levels (h.perm.trans hother.perm.symm) h.ordered hother.ordered fun o =>
    (h.stable o).trans (hother.stable o).symm

end StablySorted

/-! ## Filters -/

theorem RegionFilter.foldl_filter (filters : List RegionFilter) (problems : List Problem) :
    filters.foldl (fun problems f => f.filter problems) problems =
      problems.filter fun p => filters.all fun f => !f.covers p.origin.sourceSpan := by
  induction filters generalizing problems with
  | nil => exact (List.filter_true problems).symm
  | cons f rest ih =>
      rw [List.foldl_cons, ih, RegionFilter.filter, List.filter_filter]
      simp only [List.all_cons, Bool.and_comm]

namespace Analyzer

/-- The analyzer that is left when documents have been analyzed one after the other. -/
def after (a : Analyzer) (documents : List Document) : Analyzer :=
  documents.foldl (fun a d => (a.analyze d).2) a

/-- A problem lies in a region that one of the filters matches in the flat source. -/
def Ignores (a : Analyzer) (d : Document) (p : Problem) : Prop :=
  ∃ f ∈ a.filters, ∃ region ∈ f.regionsIn d.flatText,
    region.1 ≤ p.origin.sourceSpan.1 ∧ p.origin.sourceSpan.2 ≤ region.2

instance (a : Analyzer) (d : Document) (p : Problem) : Decidable (a.Ignores d p) :=
  inferInstanceAs (Decidable (∃ f ∈ a.filters, ∃ region ∈ f.regionsIn d.flatText, _ ∧ _))

/-- The problems of a document that are to be reported, in the order in which they are
found. -/
def reportable (a : Analyzer) (d : Document) : List Problem :=
  (a.checkers.flatMap fun c => c.check d).filter fun p => ¬ a.Ignores d p

variable {a : Analyzer} {d : Document}

theorem prepare_prepare (a : Analyzer) (d earlier : Document) :
    (a.prepare earlier).prepare d = a.prepare d := by
  simp only [prepare, List.map_map]
  rfl

theorem analyze_after (a : Analyzer) (earlier : List Document) (d : Document) :
    (a.after earlier).analyze d = a.analyze d := by
  induction earlier generalizing a with
  | nil => rfl
  | cons first rest ih =>
      have hsame : (a.prepare first).analyze d = a.analyze d := by
        rw [analyze, analyze, prepare_prepare]
        rfl
      exact (ih (a.prepare first)).trans hsame

theorem ignores_iff {p : Problem} :
    a.Ignores d p ↔ ∃ f ∈ (a.prepare d).filters, f.covers p.origin.sourceSpan = true := by
  simp only [Ignores, prepare, List.mem_map, RegionFilter.covers, RegionFilter.prepare,
    List.any_eq_true, Bool.and_eq_true, decide_eq_true_eq, exists_exists_and_eq_and]

theorem ignores_congr {filters : List RegionFilter} (h : filters.Perm a.filters) (p : Problem) :
    ({ a with filters := filters } : Analyzer).Ignores d p ↔ a.Ignores d p := by
  simp only [Ignores, h.mem_iff]

theorem analyze_sorted (a : Analyzer) (d : Document) :
    StablySorted (a.reportable d) (a.analyze d).1 := by
  have hkept : (a.prepare d).filters.foldl (fun problems f => f.filter problems) (a.found d) =
      a.reportable d := by
    rw [RegionFilter.foldl_filter, reportable, found]
    refine List.filter_congr fun p _ => ?_
    rw [Bool.eq_iff_iff, List.all_eq_true, decide_eq_true_iff, ignores_iff]
    simp
  rw [analyze]
  simp only [hkept]
  exact StablySorted.mergeSort _

/-- Whatever has been analyzed before, the problems of a document are the one stable sort,
by origin, of those that its checkers find one after the other and that lie in no region of
a filter. The order of the filters does not matter, nor do the documents before. -/
theorem analyze_eq_iff (a : Analyzer) (earlier : List Document) (d : Document) :
    (∀ problems, ((a.after earlier).analyze d).1 = problems ↔
      StablySorted (a.reportable d) problems) ∧
    ∀ filters others, filters.Perm a.filters →
      ((({ a with filters := filters } : Analyzer).after others).analyze d).1 =
        ((a.after earlier).analyze d).1 := by
  simp only [analyze_after]
  refine ⟨fun problems => ⟨?_, ?_⟩, fun filters others hfilters => ?_⟩
  · rintro rfl
    exact analyze_sorted a d
  · exact fun h => (analyze_sorted a d).unique h
  · have hreportable : ({ a with filters := filters } : Analyzer).reportable d = a.reportable d :=
      List.filter_congr fun p _ => decide_eq_decide.2 (not_congr (ignores_congr hfilters p))
    have hsorted := analyze_sorted { a with filters := filters } d
    rw [hreportable] at hsorted
    exact hsorted.unique (analyze_sorted a d)

/-- A checker that reports the same places in every document. -/
def fixedChecker (name : String) (origins : List Origin) : Checker where
  name := name
  check _ := origins.map fun o => .bare o name "" ""

/-- A byte of the only line of `/main.tex`, where the flat source shows it. -/
def mainByte (i source : Nat) : Origin where
  start := ⟨⟨"/main.tex", 0, ⟨i, 0, i⟩⟩, ⟨source, 0, source⟩, none⟩
  stop := ⟨⟨"/main.tex", 0, ⟨i + 1, 0, i + 1⟩⟩, ⟨source + 1, 0, source + 1⟩, none⟩
  same_path := rfl
  place_lt := Nat.lt_succ_self i
  source_lt := Nat.lt_succ_self source

def fixedAnalyzer (filters : List RegionFilter) : Analyzer where
  checkers := [fixedChecker "A" [mainByte 5 5, mainByte 0 0],
    fixedChecker "B" [mainByte 4 4, mainByte 0 0, mainByte 1 1]]
  filters := filters

/-- A document in which `bc` is the first two bytes. -/
def shifted : Document where
  source := {
    flat := .ofString "bcXd"
    files := #[⟨"/main.tex", .ofString "bcXd"⟩]
    origins := #[some ⟨0, 0⟩, some ⟨0, 1⟩, some ⟨0, 2⟩, some ⟨0, 3⟩]
    size_origins := rfl
    holds := Source.holds_of_stray? (by decide +kernel) }
  plain := Document.loneBytes.plain
  spanLimit := Document.loneBytes.spanLimit
  spanLimit_pos := Document.loneBytes.spanLimit_pos
  fits _ h := absurd h (Array.not_mem_empty _)

/-- In `abc⏎Xd` the filters drop what lies in `bc` and what is the `X` of `Xd`. The first
byte is reported twice, by both checkers in their order, and before the last, although it
lies in `bc` in the document analyzed before. -/
theorem analyze_fixedAnalyzer : ∃ filters,
    [("bc", none), ("(?P<deep>X)d", some "deep")].mapM
      (fun s => RegionFilter.ofText? Pattern.compile? s.1 s.2) = some filters ∧
    filters.reverse.Perm filters ∧
    (((fixedAnalyzer filters).after [shifted]).analyze .loneBytes).1.map
      (fun p => (p.tool, p.origin)) =
        [("A", mainByte 0 0), ("B", mainByte 0 0), ("A", mainByte 5 5)] ∧
    ((({ fixedAnalyzer filters with filters := filters.reverse } : Analyzer).after
      []).analyze .loneBytes).1 =
        (((fixedAnalyzer filters).after [shifted]).analyze .loneBytes).1 := by
  have hfilters : (([("bc", none), ("(?P<deep>X)d", some "deep")].mapM
      fun s => RegionFilter.ofText? Pattern.compile? s.1 s.2).map fun filters =>
        ((fixedAnalyzer filters).reportable .loneBytes).map fun p => (p.tool, p.origin)) =
      some [("A", mainByte 5 5), ("A", mainByte 0 0), ("B", mainByte 0 0)] := by
    decide +kernel
  obtain ⟨filters, hfilters, hreportable⟩ := Option.map_eq_some_iff.1 hfilters
  have hanalyze := analyze_eq_iff (fixedAnalyzer filters) [shifted] .loneBytes
  refine ⟨filters, hfilters, List.reverse_perm filters, ?_,
    hanalyze.2 _ [] (List.reverse_perm filters)⟩
  have hsort := List.map_mergeSort (f := fun p : Problem => (p.tool, p.origin))
    (r := fun p q => p.origin.le q.origin) (s := fun p q => p.2.le q.2)
    (l := (fixedAnalyzer filters).reportable .loneBytes) fun _ _ _ _ => rfl
  have hbefore : (mainByte 5 5).le (mainByte 0 0) = false := by decide
  have hlevel : (mainByte 0 0).le (mainByte 0 0) = true := by decide
  rw [(hanalyze.1 _).2 (StablySorted.mergeSort _), hsort, hreportable]
  simp [List.mergeSort, List.MergeSort.Internal.splitInTwo, hbefore, hlevel]

end Analyzer

end LatexOrigins
