import LatexOrigins.Proofs.Document.Building
import Mathlib.Order.Bounds.Basic

/-!
# The checks on the way to a document

What a pass has made is checked before it becomes part of a document: the table of a flat
source, the map of a plain text, and the map against the flat source. Each check accepts exactly
what is consistent, and what it rejects it rejects for the first cause. The last check looks at
the last entry of the map only; because the map never decreases this is as good as looking at
all of them.
-/

namespace LatexOrigins

/-! ## Tables -/

/-- A provenance is that of a byte of a registered file. -/
def Flat.Registers (flat : Flat) (origin : Provenance) : Prop :=
  ∃ copy, flat.files[origin.file]? = some copy ∧ origin.offset < copy.content.utf8ByteSize

/-- The entry of a flat byte names a file that is not registered, or an offset that does not lie
in that file. -/
def Flat.Stray (flat : Flat) (k : Nat) : Prop :=
  ∃ origin, flat.origins[k]? = some (some origin) ∧ ¬ flat.Registers origin

namespace Source

/-- Why a flat source is rejected. -/
inductive Rejects (flat : Flat) : LoadError → Prop where
  | tableLength (h : flat.origins.size ≠ flat.text.utf8ByteSize) :
      Rejects flat (.tableLength flat.origins.size flat.text.utf8ByteSize)
  | strayOrigin {k : Nat} (hsize : flat.origins.size = flat.text.utf8ByteSize)
      (h : IsLeast {k | flat.Stray k} k) : Rejects flat (.strayOrigin k)

variable {flat : Flat} {k : Nat}

abbrev filesOf (flat : Flat) : Array SourceFile :=
  flat.files.map fun copy => ⟨copy.path, .ofString copy.content⟩

theorem holds_iff {origin : Provenance} :
    SourceFile.holds (filesOf flat) origin = true ↔ flat.Registers origin := by
  unfold SourceFile.holds
  rw [filesOf, Array.getElem?_map]
  cases hcopy : flat.files[origin.file]? with
  | none =>
      constructor
      · intro h
        cases h
      · rintro ⟨copy, hsome, -⟩
        cases hcopy.symm.trans hsome
  | some copy =>
      rw [Option.map_some]
      simp only [decide_eq_true_eq]
      constructor
      · exact fun h => ⟨copy, hcopy, h⟩
      · rintro ⟨other, hother, hlt⟩
        obtain rfl := Option.some.inj (hcopy.symm.trans hother)
        exact hlt

theorem any_not_holds_iff (hk : k < flat.origins.size) :
    (flat.origins[k].any fun origin => !SourceFile.holds (filesOf flat) origin) = true ↔
      flat.Stray k := by
  rw [Flat.Stray, Array.getElem?_eq_getElem hk]
  cases flat.origins[k] with
  | none => simp
  | some origin => simp [← holds_iff]

theorem Stray.lt_size (h : flat.Stray k) : k < flat.origins.size := by
  obtain ⟨origin, horigin, -⟩ := h
  exact (Array.getElem?_eq_some_iff.1 horigin).1

theorem stray?_eq_some_iff :
    stray? (filesOf flat) flat.origins = some k ↔ IsLeast {k | flat.Stray k} k := by
  rw [stray?, Array.findIdx?_eq_some_iff_getElem]
  constructor
  · rintro ⟨hk, hstray, hbefore⟩
    refine ⟨(any_not_holds_iff hk).1 hstray, fun j hj => ?_⟩
    by_contra hlt
    have hlt := Nat.not_le.1 hlt
    exact hbefore j hlt ((any_not_holds_iff (Nat.lt_trans hlt hk)).2 hj)
  · rintro ⟨hstray, hleast⟩
    have hk := Stray.lt_size hstray
    refine ⟨hk, (any_not_holds_iff hk).2 hstray, fun j hj hother => ?_⟩
    exact Nat.not_le.2 hj (hleast ((any_not_holds_iff (Nat.lt_trans hj hk)).1 hother))

theorem stray?_eq_none_iff :
    stray? (filesOf flat) flat.origins = none ↔ ∀ k, ¬ flat.Stray k := by
  rw [stray?, Array.findIdx?_eq_none_iff]
  constructor
  · intro h k hstray
    have hk := Stray.lt_size hstray
    have hnot := h _ (Array.getElem_mem hk)
    rw [(any_not_holds_iff hk).2 hstray] at hnot
    cases hnot
  · intro h entry hentry
    obtain ⟨k, hk, rfl⟩ := Array.getElem_of_mem hentry
    rw [← Bool.not_eq_true, any_not_holds_iff hk]
    exact h k

theorem Rejects.ofFlat_eq {e : LoadError} (h : Rejects flat e) : ofFlat flat = .error e := by
  unfold ofFlat
  simp only
  cases h with
  | tableLength h => exact dif_neg h
  | strayOrigin hsize h =>
      have hlength : flat.origins.size = (LinedText.ofString flat.text).size := hsize
      rw [dif_pos hlength]
      split
      · next other hother => rw [(stray?_eq_some_iff.1 hother).unique h]
      · next hnone => exact absurd h.1 (stray?_eq_none_iff.1 hnone _)

theorem exists_ofFlat (hsize : flat.origins.size = flat.text.utf8ByteSize)
    (hnone : ∀ k, ¬ flat.Stray k) : ∃ s, ofFlat flat = .ok s := by
  have hlength : flat.origins.size = (LinedText.ofString flat.text).size := hsize
  unfold ofFlat
  simp only
  rw [dif_pos hlength]
  split
  · next k hk => exact absurd (stray?_eq_some_iff.1 hk).1 (hnone k)
  · exact ⟨_, rfl⟩

theorem ofFlat_iff (flat : Flat) :
    (∀ e, ofFlat flat = .error e ↔ Rejects flat e) ∧
      ((∃ s, ofFlat flat = .ok s) ↔
        flat.origins.size = flat.text.utf8ByteSize ∧ ∀ k, ¬ flat.Stray k) := by
  refine Results.outcome_iff (fun e h => h.ofFlat_eq) (fun h => exists_ofFlat h.1 h.2) ?_
  by_cases hsize : flat.origins.size = flat.text.utf8ByteSize
  · cases hstray : stray? (filesOf flat) flat.origins with
    | none => exact .inr ⟨hsize, stray?_eq_none_iff.1 hstray⟩
    | some k => exact .inl ⟨_, .strayOrigin hsize (stray?_eq_some_iff.1 hstray)⟩
  · exact .inl ⟨_, .tableLength hsize⟩

end Source

/-! ## Maps -/

namespace Plain

/-- The entry at an offset is below the one before it. -/
def Descends (map : List Nat) (k : Nat) : Prop :=
  ∃ i before entry, k = i + 1 ∧ map[i]? = some before ∧ map[k]? = some entry ∧ entry < before

/-- Why a map is rejected for a plain text. -/
inductive Rejects (text : String) (map : Array Nat) : LoadError → Prop where
  | mapLength (h : map.size ≠ text.utf8ByteSize) :
      Rejects text map (.mapLength map.size text.utf8ByteSize)
  | mapDecreases {k : Nat} (hsize : map.size = text.utf8ByteSize)
      (h : IsLeast {k | Descends map.toList k} k) : Rejects text map (.mapDecreases k)

variable {text : String} {map : Array Nat} {k : Nat} {l : List Nat}

theorem firstDecrease_eq_some {offset before : Nat} (h : firstDecrease offset before l = some k) :
    ∃ i, k = offset + i ∧ IsLeast {k | Descends (before :: l) k} i := by
  induction l generalizing offset before with
  | nil => cases h
  | cons entry rest ih =>
      rw [firstDecrease] at h
      split at h
      · next hlt =>
        obtain rfl := Option.some.inj h
        -- The first entry of the list is the least that has one before it.
        refine ⟨1, rfl, ⟨0, before, entry, rfl, rfl, rfl, hlt⟩, ?_⟩
        rintro j ⟨i, -, -, rfl, -⟩
        exact Nat.succ_le_succ (Nat.zero_le i)
      · next hle =>
        obtain ⟨i, rfl, ⟨j, x, y, rfl, hx, hy, hlt⟩, hleast⟩ := ih h
        refine ⟨j + 1 + 1, by omega, ⟨j + 1, x, y, rfl, hx, hy, hlt⟩, ?_⟩
        rintro m ⟨i, a, b, rfl, ha, hb, hba⟩
        cases i with
        | zero =>
            obtain rfl := Option.some.inj ha
            obtain rfl := Option.some.inj hb
            exact absurd hba hle
        | succ i =>
            have hother := hleast ⟨i, a, b, rfl, ha, hb, hba⟩
            exact Nat.succ_le_succ hother

theorem not_descends_of_pairwise (h : l.Pairwise (· ≤ ·)) (k : Nat) : ¬ Descends l k := by
  rintro ⟨i, before, entry, rfl, hbefore, hentry, hlt⟩
  obtain ⟨hi, rfl⟩ := List.getElem?_eq_some_iff.1 hbefore
  obtain ⟨hk, rfl⟩ := List.getElem?_eq_some_iff.1 hentry
  have hle := List.pairwise_iff_getElem.1 h i (i + 1) hi hk (Nat.lt_succ_self i)
  omega

theorem decrease?_eq_none_iff : decrease? l = none ↔ ∀ k, ¬ Descends l k := by
  constructor
  · exact fun h => not_descends_of_pairwise (pairwise_of_decrease? h)
  · intro h
    refine Option.eq_none_iff_forall_ne_some.2 fun k hk => ?_
    cases l with
    | nil => cases hk
    | cons entry rest =>
        obtain ⟨i, -, hleast⟩ := firstDecrease_eq_some hk
        exact h i hleast.1

theorem decrease?_eq_some_iff : decrease? l = some k ↔ IsLeast {k | Descends l k} k := by
  have hleast {k : Nat} (h : decrease? l = some k) : IsLeast {k | Descends l k} k := by
    cases l with
    | nil => cases h
    | cons entry rest =>
        obtain ⟨i, rfl, hleast⟩ := firstDecrease_eq_some h
        rwa [Nat.zero_add]
  refine ⟨hleast, fun h => ?_⟩
  cases hfound : decrease? l with
  | none => exact absurd h.1 (decrease?_eq_none_iff.1 hfound k)
  | some other => rw [(hleast hfound).unique h]

theorem Rejects.ofMap_eq {e : LoadError} (h : Rejects text map e) : ofMap text map = .error e := by
  unfold ofMap
  simp only
  cases h with
  | mapLength h => exact dif_neg h
  | mapDecreases hsize h =>
      have hlength : map.size = (LinedText.ofString text).size := hsize
      rw [dif_pos hlength]
      split
      · next other hother => rw [(decrease?_eq_some_iff.1 hother).unique h]
      · next hnone => exact absurd h.1 (decrease?_eq_none_iff.1 hnone _)

theorem exists_ofMap (hsize : map.size = text.utf8ByteSize)
    (hmono : map.toList.Pairwise (· ≤ ·)) : ∃ p, ofMap text map = .ok p ∧ p.map = map := by
  have hlined : map.size = (LinedText.ofString text).size := hsize
  unfold ofMap
  simp only
  rw [dif_pos hlined]
  split
  · next offset hdecrease =>
    exact absurd (decrease?_eq_some_iff.1 hdecrease).1 (not_descends_of_pairwise hmono offset)
  · exact ⟨_, rfl, rfl⟩

theorem ofMap_iff (text : String) (map : Array Nat) :
    (∀ e, ofMap text map = .error e ↔ Rejects text map e) ∧
      ((∃ p, ofMap text map = .ok p) ↔
        map.size = text.utf8ByteSize ∧ ∀ k, ¬ Descends map.toList k) := by
  refine Results.outcome_iff (fun e h => h.ofMap_eq) (fun h => ?_) ?_
  · obtain ⟨p, hp, -⟩ := exists_ofMap h.1 (pairwise_of_decrease? (decrease?_eq_none_iff.2 h.2))
    exact ⟨p, hp⟩
  · by_cases hsize : map.size = text.utf8ByteSize
    · cases hdecrease : decrease? map.toList with
      | none => exact .inr ⟨hsize, decrease?_eq_none_iff.1 hdecrease⟩
      | some k => exact .inl ⟨_, .mapDecreases hsize (decrease?_eq_some_iff.1 hdecrease)⟩
    · exact .inl ⟨_, .mapLength hsize⟩

end Plain

/-! ## Maps into a flat source -/

namespace Plain

theorem exists_ofSource {flat text : String} {strip : Stripper} {map : Array Nat}
    (hstrip : strip flat = .ok (text, map)) (hsize : map.size = text.utf8ByteSize)
    (hmono : map.toList.Pairwise (· ≤ ·)) (hfits : ∀ entry ∈ map, entry < flat.utf8ByteSize) :
    ∃ p, ofSource flat strip = .ok p ∧ p.map = map := by
  obtain ⟨p, hp, rfl⟩ := exists_ofMap hsize hmono
  refine ⟨p, ?_, rfl⟩
  unfold ofSource
  simp only [hstrip, Results.ok_bind, hp]
  split
  · next offset hpast =>
    obtain ⟨hlt, hpast, -⟩ := Array.findIdx?_eq_some_iff_getElem.1 hpast
    have hinside := hfits _ (Array.getElem_mem hlt)
    have houtside : flat.utf8ByteSize ≤ p.map[offset] := by simpa using hpast
    omega
  · rfl

theorem lt_size_of_ofSource_eq_ok {flat : String} {strip : Stripper} {p : Plain}
    (h : ofSource flat strip = .ok p) : ∀ entry ∈ p.map, entry < flat.utf8ByteSize := by
  obtain ⟨⟨text, map⟩, -, h⟩ := Results.bind_eq_ok.1 h
  obtain ⟨made, -, h⟩ := Results.bind_eq_ok.1 h
  split at h
  · cases h
  · next hnone =>
    obtain rfl := Except.ok.inj h
    intro entry hentry
    have hinside := Array.findIdx?_eq_none_iff.1 hnone entry hentry
    exact Nat.not_le.1 (of_decide_eq_false hinside)

/-- Looking at every entry of the map: what a stripper returns is accepted if all of them lie in
the flat source. -/
theorem ofSource_iff {plain : Plain} {flat : String} {strip : Stripper}
    (hstrip : strip flat = .ok (plain.text, plain.map)) :
    (∃ p, ofSource flat strip = .ok p) ↔ ∀ entry ∈ plain.map, entry < flat.utf8ByteSize := by
  constructor
  · rintro ⟨p, hp⟩
    have hsame := (ofSource_eq_ok hp).1
    rw [hstrip] at hsame
    obtain ⟨-, hmap⟩ := Prod.mk.inj (Except.ok.inj hsame)
    rw [hmap]
    exact lt_size_of_ofSource_eq_ok hp
  · intro hfits
    obtain ⟨p, hp, -⟩ := exists_ofSource hstrip plain.size_map plain.monotone hfits
    exact ⟨p, hp⟩

end Plain

namespace Document

theorem exists_ofParts {source : Source} {plain : Plain}
    (hfits : ∀ entry ∈ plain.map, entry < source.flat.size) :
    ∃ d, ofParts source plain = .ok d := by
  unfold ofParts
  split
  · next target hpast =>
    obtain ⟨hback, hpast⟩ := Option.filter_eq_some_iff.1 hpast
    have hinside := hfits target (Array.mem_of_back? hback)
    have houtside : source.flat.size ≤ target := of_decide_eq_true hpast
    omega
  · exact ⟨_, rfl⟩

/-- Looking at the last entry of the map: a document is made if all of them lie in the flat
source. -/
theorem ofParts_iff (source : Source) (plain : Plain) :
    (∃ d, ofParts source plain = .ok d) ↔ ∀ entry ∈ plain.map, entry < source.flat.size := by
  constructor
  · rintro ⟨d, hd⟩
    obtain ⟨rfl, rfl⟩ := ofParts_eq_ok hd
    exact d.fits
  · exact exists_ofParts

/-- The checks accept exactly what is consistent. The table of a flat source is rejected if it
has not one entry for each byte, otherwise at the first entry that names no byte of a registered
file. A map is rejected if it has not one entry for each byte of its text, otherwise at the first
entry that is below the one before it. A source and a plain text make a document exactly if each
entry of the map lies in the flat source, and that is if a stripper which returns this text and
this map for the flat source is accepted. -/
theorem checks_exact :
    (∀ flat, (∀ e, Source.ofFlat flat = .error e ↔ Source.Rejects flat e) ∧
      ((∃ s, Source.ofFlat flat = .ok s) ↔
        flat.origins.size = flat.text.utf8ByteSize ∧ ∀ k, ¬ flat.Stray k)) ∧
    (∀ text map, (∀ e, Plain.ofMap text map = .error e ↔ Plain.Rejects text map e) ∧
      ((∃ p, Plain.ofMap text map = .ok p) ↔
        map.size = text.utf8ByteSize ∧ ∀ k, ¬ Plain.Descends map.toList k)) ∧
    ∀ (source : Source) (plain : Plain),
      ((∃ d, ofParts source plain = .ok d) ↔ ∀ entry ∈ plain.map, entry < source.flat.size) ∧
      ∀ strip : Plain.Stripper, strip source.flat.text = .ok (plain.text, plain.map) →
        ((∃ d, ofParts source plain = .ok d) ↔
          ∃ p, Plain.ofSource source.flat.text strip = .ok p) := by
  refine ⟨Source.ofFlat_iff, Plain.ofMap_iff, fun source plain => ⟨ofParts_iff source plain, ?_⟩⟩
  intro strip hstrip
  rw [ofParts_iff, Plain.ofSource_iff hstrip]
  rfl

/-- A flat source of two bytes. -/
def twoBytes : Flat := ⟨"ab", #[⟨"/main.tex", "ab"⟩], (Flat.provenances 0 0 2).toArray⟩

/-- A map that leads behind two bytes is sorted, and is rejected in the end either way. -/
theorem checks_exact_twoBytes : ∃ s p, Source.ofFlat twoBytes = .ok s ∧
    Plain.ofMap "yz" #[0, 2] = .ok p ∧ (¬ ∀ entry ∈ p.map, entry < s.flat.size) ∧
      ((∃ d, ofParts s p = .ok d) ↔ ∀ entry ∈ p.map, entry < s.flat.size) ∧
      ((∃ d, ofParts s p = .ok d) ↔
        ∃ q, Plain.ofSource s.flat.text (fun _ => .ok (p.text, p.map)) = .ok q) := by
  have hsource : (Source.ofFlat twoBytes).toOption.isSome = true := by decide +kernel
  have hplain : (Plain.ofMap "yz" #[0, 2]).toOption.isSome = true := by decide +kernel
  obtain ⟨s, hs⟩ := Results.exists_ok_of_isSome hsource
  obtain ⟨p, hp⟩ := Results.exists_ok_of_isSome hplain
  obtain ⟨hparts, hstrip⟩ := checks_exact.2.2 s p
  refine ⟨s, p, hs, hp, ?_, hparts, hstrip _ rfl⟩
  rw [(Plain.ofMap_eq_ok hp).2, (Source.ofFlat_eq_ok hs).1]
  decide +kernel

end Document

end LatexOrigins
