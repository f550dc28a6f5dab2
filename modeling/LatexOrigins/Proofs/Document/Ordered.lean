import LatexOrigins.Origin.Order
import LatexOrigins.Proofs.Document.Agreement
import LatexOrigins.Proofs.Document.SourceSpan
import Mathlib.Data.List.Forall2

/-!
# Origins of matches keep their order

Matches of a pattern follow each other without overlap. In the flat source the span of an
origin stays inside its match, so the origins are in strict order and their spans do not meet.
In the plain text an origin has its match for text span. Several matches may stem from one
flat byte there, and the flat ranges that they stem from are cut to the limit; but neither
end of these ranges ever decreases, and so the starts of the cut ranges do not either.
-/

namespace LatexOrigins

/-- Ranges that are not empty and follow each other without overlap. -/
structure Successive (ranges : List (Nat × Nat)) : Prop where
  nonempty : ∀ range ∈ ranges, range.1 < range.2
  apart : ranges.Pairwise fun range next => range.2 ≤ next.1

theorem Successive.filter_eq {ranges : List (Nat × Nat)} (h : Successive ranges) :
    ranges.filter (fun range => range.1 ≠ range.2) = ranges := by
  rw [List.filter_eq_self]
  intro range hrange
  exact decide_eq_true (Nat.ne_of_lt (h.nonempty range hrange))

theorem Origin.compare_eq_lt {o next : Origin} (h : o.sourceSpan.1 < next.sourceSpan.1) :
    o.compare next = .lt := by
  have hkey : Ord.compare o.start.key.source next.start.key.source = .lt := Nat.compare_eq_lt.2 h
  rw [Origin.compare, Pointer.compare, hkey]
  rfl

namespace Document

variable {d : Document} {b e b' e' : Nat} {o next : Origin} {ranges : List (Nat × Nat)}

/-! ## Single ranges -/

theorem cutStart_mono (d : Document) (hb : b ≤ b') (he : e ≤ e') :
    d.cutStart b e ≤ d.cutStart b' e' := by
  unfold cutStart
  omega

theorem sourceSpan_within (h : d.originOfSource (.offset b) (.offset e) = .ok o) :
    b ≤ o.sourceSpan.1 ∧ o.sourceSpan.2 ≤ e := by
  obtain ⟨_, _, ⟨_⟩, ⟨_⟩, htraces⟩ := d.exists_traces_of_originOfSource h
  obtain ⟨last, hlast, hstop⟩ := htraces.source_stop
  have hinside := (Source.mem_offsetsOf.1 hlast.1).1.2
  have hfirst : o.sourceSpan.1 = d.cutStart b e := congrArg Position.offset htraces.source_start
  have hend : o.sourceSpan.2 = last + 1 := congrArg Position.offset hstop
  rw [hfirst, hend, cutStart]
  omega

theorem textSpan_eq (h : d.originOfText (.offset b) (.offset e) = .ok o) :
    o.textSpan = some (b, e) ∧ ∃ x last, d.plain.map[b]? = some x ∧
      d.plain.map[e - 1]? = some last ∧ o.sourceSpan.1 = d.cutStart x (last + 1) := by
  obtain ⟨_, _, x, _, ⟨_⟩, ⟨hsize⟩, hlt, ⟨hx, last, hlast, rfl⟩, htouches⟩ :=
    (d.answered_originOfText (not_overruns_of_originOfText h)).ok_iff.1 ⟨o, h⟩
  have hrange : x < last + 1 := Nat.lt_succ_of_le (map_le (Nat.le_sub_one_of_lt hlt) hx hlast)
  rw [d.countedFrom_eq_cutStart hrange] at htouches
  have hinside : last + 1 ≤ d.source.flat.size := d.fits last (Array.mem_of_getElem? hlast)
  obtain ⟨found, hfound, htraces⟩ := d.exists_originOfRange hrange hinside htouches
  rw [d.originOfText_eq_map hlt hx hlast, hfound] at h
  obtain rfl := Except.ok.inj h
  exact ⟨rfl, x, last, hx, hlast, congrArg Position.offset htraces.source_start⟩

/-! ## Two ranges -/

theorem source_ordered (h : d.originOfSource (.offset b) (.offset e) = .ok o)
    (hnext : d.originOfSource (.offset b') (.offset e') = .ok next) (hapart : e ≤ b') :
    o.compare next = .lt ∧ o.sourceSpan.2 ≤ next.sourceSpan.1 := by
  have hstop := (sourceSpan_within h).2
  have hstart := (sourceSpan_within hnext).1
  have hspan := o.source_lt
  have hbehind : o.sourceSpan.2 ≤ next.sourceSpan.1 := by omega
  exact ⟨Origin.compare_eq_lt (Nat.lt_of_lt_of_le hspan hbehind), hbehind⟩

/-- Two ranges of the plain text are the text spans of their origins, and the source span of
the one in front starts no later, because the map never decreases. -/
theorem text_ordered (h : d.originOfText (.offset b) (.offset e) = .ok o)
    (hnext : d.originOfText (.offset b') (.offset e') = .ok next) (hlt : b < e) (hlt' : b' < e')
    (hapart : e ≤ b') :
    (∃ span span', o.textSpan = some span ∧ next.textSpan = some span' ∧
      span.1 < span.2 ∧ span.2 ≤ span'.1 ∧ span'.1 < span'.2) ∧
      o.sourceSpan.1 ≤ next.sourceSpan.1 := by
  obtain ⟨hspan, x, last, hx, hlast, hstart⟩ := textSpan_eq h
  obtain ⟨hspan', x', last', hx', hlast', hstart'⟩ := textSpan_eq hnext
  refine ⟨⟨_, _, hspan, hspan', hlt, hapart, hlt'⟩, ?_⟩
  rw [hstart, hstart']
  apply d.cutStart_mono (map_le (by omega) hx hx')
  exact Nat.succ_le_succ (map_le (by omega) hlast hlast')

/-! ## Matches -/

/-- The origins of matches in the flat source are in strict order, and the source span of each
lies in its match, so no two of them meet. The origins of matches in the plain text have the
matches for text spans, and the starts of their source spans never decrease. -/
theorem origins_ordered (d : Document) (hranges : Successive ranges) :
    List.Forall₂ (fun range answer => ∀ o, answer = .ok o →
        range.1 ≤ o.sourceSpan.1 ∧ o.sourceSpan.2 ≤ range.2)
      ranges (d.originsInSource ranges) ∧
    ((d.originsInSource ranges).filterMap Except.toOption).Pairwise (fun o next =>
      o.compare next = .lt ∧ o.sourceSpan.2 ≤ next.sourceSpan.1) ∧
    List.Forall₂ (fun range answer => ∀ o, answer = .ok o → o.textSpan = some range)
      ranges (d.originsInText ranges) ∧
    ((d.originsInText ranges).filterMap Except.toOption).Pairwise (fun o next =>
      (∃ span span', o.textSpan = some span ∧ next.textSpan = some span' ∧
        span.1 < span.2 ∧ span.2 ≤ span'.1 ∧ span'.1 < span'.2) ∧
      o.sourceSpan.1 ≤ next.sourceSpan.1) := by
  rw [originsInSource, originsInText, hranges.filter_eq]
  refine ⟨?_, ?_, ?_, ?_⟩
  · rw [List.forall₂_map_right_iff, List.forall₂_same]
    exact fun range _ o h => sourceSpan_within h
  · rw [List.pairwise_filterMap, List.pairwise_map]
    refine hranges.apart.imp fun hapart o h next hnext => ?_
    exact source_ordered (Results.toOption_eq_some.1 h) (Results.toOption_eq_some.1 hnext) hapart
  · rw [List.forall₂_map_right_iff, List.forall₂_same]
    exact fun range _ o h => (textSpan_eq h).1
  · rw [List.pairwise_filterMap, List.pairwise_map]
    refine hranges.apart.imp_of_mem fun hrange hother hapart o h next hnext => ?_
    exact text_ordered (Results.toOption_eq_some.1 h) (Results.toOption_eq_some.1 hnext)
      (hranges.nonempty _ hrange) (hranges.nonempty _ hother) hapart

/-- The first two bytes of a plain text stem from one flat byte, and the range of four flat
bytes that its last two stem from is cut to three. -/
theorem origins_ordered_gapped : Successive [(0, 1), (1, 2), (2, 4)] ∧
    ((gapped.originsInText [(0, 1), (1, 2), (2, 4)]).filterMap Except.toOption).map
      (·.sourceSpan) = [(1, 2), (1, 2), (3, 6)] ∧
    List.Forall₂ (fun range answer => ∀ o, answer = .ok o →
        range.1 ≤ o.sourceSpan.1 ∧ o.sourceSpan.2 ≤ range.2)
      [(0, 1), (1, 2), (2, 4)] (gapped.originsInSource [(0, 1), (1, 2), (2, 4)]) ∧
    ((gapped.originsInSource [(0, 1), (1, 2), (2, 4)]).filterMap Except.toOption).Pairwise
      (fun o next => o.compare next = .lt ∧ o.sourceSpan.2 ≤ next.sourceSpan.1) ∧
    List.Forall₂ (fun range answer => ∀ o, answer = .ok o → o.textSpan = some range)
      [(0, 1), (1, 2), (2, 4)] (gapped.originsInText [(0, 1), (1, 2), (2, 4)]) ∧
    ((gapped.originsInText [(0, 1), (1, 2), (2, 4)]).filterMap Except.toOption).Pairwise
      (fun o next => (∃ span span', o.textSpan = some span ∧ next.textSpan = some span' ∧
        span.1 < span.2 ∧ span.2 ≤ span'.1 ∧ span'.1 < span'.2) ∧
        o.sourceSpan.1 ≤ next.sourceSpan.1) := by
  have hranges : Successive [(0, 1), (1, 2), (2, 4)] := ⟨by decide, by decide⟩
  exact ⟨hranges, by decide +kernel, origins_ordered gapped hranges⟩

end Document

end LatexOrigins
