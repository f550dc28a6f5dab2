import LatexOrigins.Document.Source
import LatexOrigins.Proofs.Text.LineSpan
import Mathlib.Order.Interval.Finset.Nat

/-!
# Shares of a range

The bytes of a flat range are counted as sets of flat offsets: those that come
from one file, and those that come from one line of it. The counts that tracing
takes over lists are the sizes of these sets, and the file that tracing picks is
the one that the rule on single bytes names.
-/

namespace LatexOrigins

/-- The file that stands for some bytes: the last one entered among those that
have a share, unless its share is a single byte and the next one has several. -/
def IsReportedFile (share : Nat → Nat) (file : Nat) : Prop :=
  ∃ deepest, IsGreatest {f | 0 < share f} deepest ∧
    (file = deepest ∧ ¬ (share deepest = 1 ∧
        ∃ second, IsGreatest {f | 0 < share f ∧ f < deepest} second ∧ 2 ≤ share second) ∨
      share deepest = 1 ∧ IsGreatest {f | 0 < share f ∧ f < deepest} file ∧ 2 ≤ share file)

theorem IsReportedFile.share_pos {share : Nat → Nat} {file : Nat}
    (h : IsReportedFile share file) : 0 < share file := by
  obtain ⟨deepest, hdeepest, ⟨rfl, -⟩ | ⟨-, hfile, -⟩⟩ := h
  · exact hdeepest.1
  · exact hfile.1.1

namespace Source

/-- The offsets of a flat range whose bytes come from a place with some property. -/
def offsetsWith (s : Source) (start stop : Nat) (test : Provenance → Bool) : Finset Nat :=
  (Finset.Ico start stop).filter fun k => (s.provenance? k).any test

def offsetsOf (s : Source) (start stop file : Nat) : Finset Nat :=
  s.offsetsWith start stop fun origin => origin.file = file

def lineOf? (s : Source) (origin : Provenance) : Option Nat :=
  (s.file? origin.file).map fun file => file.lined.lineAt origin.offset

def offsetsOn (s : Source) (start stop file line : Nat) : Finset Nat :=
  s.offsetsWith start stop fun origin => origin.file = file ∧ s.lineOf? origin = some line

theorem mem_offsetsWith {s : Source} {start stop k : Nat} {test : Provenance → Bool} :
    k ∈ s.offsetsWith start stop test ↔
      (start ≤ k ∧ k < stop) ∧ ∃ origin, s.provenance? k = some origin ∧ test origin = true := by
  rw [offsetsWith, Finset.mem_filter, Finset.mem_Ico, Option.any_eq_true]

theorem mem_offsetsOf {s : Source} {start stop file k : Nat} :
    k ∈ s.offsetsOf start stop file ↔
      (start ≤ k ∧ k < stop) ∧ ∃ origin, s.provenance? k = some origin ∧ origin.file = file := by
  simp [offsetsOf, mem_offsetsWith]

theorem mem_offsetsOn {s : Source} {start stop file line k : Nat} :
    k ∈ s.offsetsOn start stop file line ↔
      (start ≤ k ∧ k < stop) ∧ ∃ origin, s.provenance? k = some origin ∧
        origin.file = file ∧ s.lineOf? origin = some line := by
  simp [offsetsOn, mem_offsetsWith]

theorem mem_provenances {s : Source} {start stop : Nat} {origin : Provenance} :
    origin ∈ s.provenances start stop ↔
      ∃ k, (start ≤ k ∧ k < stop) ∧ s.provenance? k = some origin := by
  simp only [provenances, List.mem_filterMap, List.mem_range'_1]
  constructor
  · rintro ⟨k, ⟨hstart, hstop⟩, hk⟩
    exact ⟨k, ⟨hstart, by omega⟩, hk⟩
  · rintro ⟨k, ⟨hstart, hstop⟩, hk⟩
    exact ⟨k, ⟨hstart, by omega⟩, hk⟩

theorem countP_provenances (s : Source) (start stop : Nat) (test : Provenance → Bool) :
    (s.provenances start stop).countP test = (s.offsetsWith start stop test).card := by
  rw [provenances, List.countP_filterMap, List.countP_eq_length_filter]
  change _ = ((List.range' start (stop - start)).filter _).length
  congr 2
  funext k
  cases h : s.provenance? k <;> simp [h]

theorem share_provenances (s : Source) (start stop file : Nat) :
    share (s.provenances start stop) file = (s.offsetsOf start stop file).card :=
  s.countP_provenances start stop _

/-! ## The reported file -/

theorem share_pos_iff {bytes : List Provenance} {file : Nat} :
    0 < share bytes file ↔ file ∈ bytes.map (·.file) := by
  simp [share, List.countP_pos_iff]

theorem isGreatest_max? {bytes : List Provenance} {file : Nat}
    (h : (bytes.map (·.file)).max? = some file) : IsGreatest {f | 0 < share bytes f} file := by
  obtain ⟨hmem, hle⟩ := List.max?_eq_some_iff.1 h
  exact ⟨share_pos_iff.2 hmem, fun f hf => hle f (share_pos_iff.1 hf)⟩

theorem share_filter_ne {bytes : List Provenance} {deepest file : Nat} (h : file ≠ deepest) :
    share (bytes.filter (·.file ≠ deepest)) file = share bytes file := by
  rw [share, share, List.countP_filter]
  congr 1
  funext origin
  by_cases ho : origin.file = file <;> simp [ho, h]

theorem share_filter_self (bytes : List Provenance) (deepest : Nat) :
    share (bytes.filter (·.file ≠ deepest)) deepest = 0 := by
  simp [share, List.countP_eq_zero]

/-- The files below the greatest are those of the bytes that are not its own. -/
theorem share_filter_pos_iff {bytes : List Provenance} {deepest : Nat}
    (h : IsGreatest {f | 0 < share bytes f} deepest) (file : Nat) :
    0 < share (bytes.filter (·.file ≠ deepest)) file ↔ 0 < share bytes file ∧ file < deepest := by
  by_cases hfile : file = deepest
  · subst hfile
    rw [share_filter_self]
    omega
  · rw [share_filter_ne hfile]
    constructor
    · intro hpos
      exact ⟨hpos, lt_of_le_of_ne (h.2 hpos) hfile⟩
    · exact fun hpos => hpos.1

theorem isReportedFile_of_reportedFile {bytes : List Provenance} {file : Nat}
    (h : reportedFile bytes = some file) : IsReportedFile (share bytes) file := by
  unfold reportedFile at h
  split at h
  · simp at h
  · next deepest hdeepest =>
    have hgreatest := isGreatest_max? hdeepest
    have hbelow : {f | 0 < share (bytes.filter (·.file ≠ deepest)) f} =
        {f | 0 < share bytes f ∧ f < deepest} :=
      Set.ext fun f => share_filter_pos_iff hgreatest f
    simp only at h
    split at h
    · next hnone =>
      refine ⟨deepest, hgreatest, Or.inl ⟨(Option.some.inj h).symm, ?_⟩⟩
      rintro ⟨-, second, hsecond, -⟩
      rw [← hbelow] at hsecond
      have hmem := share_pos_iff.1 hsecond.1
      rw [List.max?_eq_none_iff.1 hnone] at hmem
      simp at hmem
    · next second hsome =>
      have hsecond := isGreatest_max? hsome
      rw [hbelow] at hsecond
      split at h
      · next hlone =>
        obtain rfl := Option.some.inj h
        exact ⟨deepest, hgreatest, Or.inr ⟨hlone.1, hsecond, hlone.2⟩⟩
      · next hlone =>
        refine ⟨deepest, hgreatest, Or.inl ⟨(Option.some.inj h).symm, ?_⟩⟩
        rintro ⟨hone, other, hother, hmany⟩
        rw [hother.unique hsecond] at hmany
        exact hlone ⟨hone, hmany⟩

end Source

end LatexOrigins
