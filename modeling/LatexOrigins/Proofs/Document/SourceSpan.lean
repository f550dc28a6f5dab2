import LatexOrigins.Proofs.Document.Queries

/-!
# The source span of an origin

An origin of a flat range says also which part of the range it stands for. The end
of this part is pulled back to the last byte that comes from the file of the origin.
The start is not moved: it is where the range starts, cut to its last bytes, also
where the byte there comes from another file.
-/

namespace LatexOrigins

/-- A flat byte comes from some file. -/
def Source.ComesFrom (s : Source) (file k : Nat) : Prop :=
  (s.provenance? k).map (·.file) = some file

instance (s : Source) (file k : Nat) : Decidable (s.ComesFrom file k) :=
  inferInstanceAs (Decidable (_ = _))

theorem Source.comesFrom_iff {s : Source} {file k : Nat} :
    s.ComesFrom file k ↔ ∃ origin, s.provenance? k = some origin ∧ origin.file = file :=
  Option.map_eq_some_iff

namespace Document

theorem exists_traces_of_originOfSource (d : Document) {start stop : Address} {o : Origin}
    (h : d.originOfSource start stop = .ok o) :
    ∃ b e, d.source.flat.Names start b ∧ d.source.flat.Names stop e ∧
      d.Traces (d.cutStart b e) e o := by
  obtain ⟨b, e, hb, he, hlt, hle, horigin⟩ := exists_range_of_originOfSource h
  exact ⟨b, e, hb, he, traces_of_originOfRange hlt hle horigin⟩

/-- The source span of an origin ends at the last byte of the range that comes from the
file of the origin, and it starts where the range starts, cut to its last bytes. So both
its ends come from the file exactly if the first byte of the cut range does. -/
theorem originOfSource_ends (d : Document) {start stop : Address} {o : Origin}
    (h : d.originOfSource start stop = .ok o) :
    ∃ b e, d.source.flat.Names start b ∧ d.source.flat.Names stop e ∧
      o.sourceSpan.1 = max b (e - d.spanLimit) ∧
      IsGreatest {k | max b (e - d.spanLimit) ≤ k ∧ k < e ∧ d.source.ComesFrom o.fileId k}
        (o.sourceSpan.2 - 1) ∧
      (d.source.ComesFrom o.fileId o.sourceSpan.1 ∧
          d.source.ComesFrom o.fileId (o.sourceSpan.2 - 1) ↔
        d.source.ComesFrom o.fileId (max b (e - d.spanLimit))) := by
  obtain ⟨b, e, hb, he, htraces⟩ := d.exists_traces_of_originOfSource h
  obtain ⟨last, hlast, hstop⟩ := htraces.source_stop
  have hfirst : o.sourceSpan.1 = max b (e - d.spanLimit) := by
    rw [Origin.sourceSpan, htraces.source_start]
    rfl
  have hend : o.sourceSpan.2 - 1 = last := by
    rw [Origin.sourceSpan, hstop]
    rfl
  have hset : {k | max b (e - d.spanLimit) ≤ k ∧ k < e ∧ d.source.ComesFrom o.fileId k} =
      (d.source.offsetsOf (d.cutStart b e) e o.fileId : Set Nat) := by
    ext k
    rw [Set.mem_ofPred_eq, Finset.mem_coe, Source.mem_offsetsOf, Source.comesFrom_iff, and_assoc,
      cutStart]
  have hcomes : d.source.ComesFrom o.fileId last :=
    Source.comesFrom_iff.2 (Source.mem_offsetsOf.1 hlast.1).2
  refine ⟨b, e, hb, he, hfirst, ?_, ?_⟩
  · rwa [hend, hset]
  · rw [hfirst, hend]
    exact and_iff_left hcomes

/-- A document whose file includes another one in the middle of a line. -/
def inlined : Document where
  source := {
    flat := .ofString "abXYZcd"
    files := #[⟨"/main.tex", .ofString "ab\\input\x7bs\x7dcd"⟩, ⟨"/s.tex", .ofString "XYZ"⟩]
    origins := #[some ⟨0, 0⟩, some ⟨0, 1⟩, some ⟨1, 0⟩, some ⟨1, 1⟩, some ⟨1, 2⟩, some ⟨0, 11⟩,
      some ⟨0, 12⟩]
    size_origins := rfl
    holds := Source.holds_of_stray? (by decide +kernel) }
  plain := loneBytes.plain
  spanLimit := 7
  spanLimit_pos := by decide
  fits := by decide +kernel

/-- The end of the range `XYZc` is pulled back into the included file. -/
theorem ends_inlined : ∃ o,
    inlined.originOfSource (.lineColumn 0 2) (.offset 6) = .ok o ∧ o.sourceSpan = (2, 5) ∧
      ∃ b e, inlined.source.flat.Names (.lineColumn 0 2) b ∧
        inlined.source.flat.Names (.offset 6) e ∧
        o.sourceSpan.1 = max b (e - inlined.spanLimit) ∧
        IsGreatest {k | max b (e - inlined.spanLimit) ≤ k ∧ k < e ∧
          inlined.source.ComesFrom o.fileId k} (o.sourceSpan.2 - 1) ∧
        (inlined.source.ComesFrom o.fileId o.sourceSpan.1 ∧
            inlined.source.ComesFrom o.fileId (o.sourceSpan.2 - 1) ↔
          inlined.source.ComesFrom o.fileId (max b (e - inlined.spanLimit))) :=
  have h : inlined.originOfSource (.lineColumn 0 2) (.offset 6) = .ok _ := rfl
  ⟨_, h, rfl, originOfSource_ends inlined h⟩

/-- The origin of the range `bXYZ` lies in the included file, but its source span starts
with a byte of the file that includes it. -/
theorem not_starts_inlined : ∃ o,
    inlined.originOfSource (.offset 1) (.offset 5) = .ok o ∧ o.file = "/s.tex" ∧
      o.sourceSpan = (1, 5) ∧ ¬ inlined.source.ComesFrom o.fileId o.sourceSpan.1 :=
  ⟨_, rfl, rfl, rfl, by decide⟩

end Document

end LatexOrigins
