import LatexOrigins.Proofs.Flat.Faithful
import LatexOrigins.Proofs.Text.Encoded

/-!
# Characters stay whole

Flattening keeps and takes back whole characters. So where a character goes on, in
the flat text or in the file that it comes from, the table goes on with the next byte
of that file. Inside a piece that is kept the entries are consecutive in any case, and
at its ends no character goes on.
-/

namespace LatexOrigins.Flat

open Text (Continues)

/-- Where a character goes on, the table goes on. -/
def Unsplit (flat : Flat) : Prop :=
  ∀ k file offset copy, flat.entries[k]? = some (some ⟨file, offset⟩) →
    flat.files[file]? = some copy →
    Continues flat.textBytes (k + 1) ∨ Continues (Text.bytes copy.content) (offset + 1) →
    flat.entries[k + 1]? = some (some ⟨file, offset + 1⟩)

/-- An entry names a registered file, and the byte there is that of the flat text. -/
theorem InStep.exists_copy {files : FileSet} {flat : Flat} {k file offset : Nat}
    (hflat : InStep files flat) (hentry : flat.entries[k]? = some (some ⟨file, offset⟩)) :
    ∃ copy, flat.files[file]? = some copy ∧
      flat.textBytes[k]? = (Text.bytes copy.content)[offset]? := by
  obtain ⟨hk, hentry⟩ := List.getElem?_eq_some_iff.1 hentry
  have hbyte : k < flat.textBytes.length := hflat.stems.length_eq ▸ hk
  obtain ⟨origin, copy, horigin, hcopy, hb⟩ := hflat.stems.get hbyte hk
  obtain rfl : origin = ⟨file, offset⟩ := Option.some.inj (horigin.symm.trans hentry)
  refine ⟨copy, hcopy, ?_⟩
  rw [hb, List.getElem?_eq_getElem hbyte]
  rfl

theorem not_continues_seam {front : List UInt8} {content : String} {start stop : Nat}
    (hstart : start < stop → Text.isBoundary content start = true) :
    ¬ Continues (front ++ cutOut content start stop) front.length := by
  intro hcontinues
  have hinside := hcontinues.lt_length
  rw [List.length_append, cutOut, List.length_take] at hinside
  have hlt : start < stop := by omega
  have hbyte : (front ++ cutOut content start stop)[front.length]? =
      (Text.bytes content)[start]? := by
    rw [List.getElem?_append_right (Nat.le_refl _), Nat.sub_self, getElem?_cutOut (by omega),
      Nat.add_zero]
  rw [Text.continues_congr hbyte] at hcontinues
  exact Text.not_continues_of_isBoundary (hstart hlt) hcontinues

theorem Unsplit.keep {flat flat' : Flat} {id start stop : Nat} {copy : FileCopy}
    (hflat : flat.Unsplit) (hlength : flat.entries.length = flat.textBytes.length)
    (hcopy : flat.files[id]? = some copy)
    (h : flat.keep id copy.content start stop = .ok flat') : flat'.Unsplit := by
  obtain ⟨hfiles, hbytes, hentries⟩ := keep_eq_ok h
  have hcuts := isBoundary_of_keep_eq_ok h
  intro k file offset other hentry hother hgoes
  rw [hfiles] at hother
  rw [hbytes] at hgoes
  rw [hentries] at hentry ⊢
  rcases Nat.lt_or_ge k flat.entries.length with hk | hk
  · rw [List.getElem?_append_left hk] at hentry
    have hnext : Continues flat.textBytes (k + 1) ∨
        Continues (Text.bytes other.content) (offset + 1) := by
      refine hgoes.imp_left fun hgoes => ?_
      by_cases hlast : k + 1 = flat.textBytes.length
      · rw [hlast] at hgoes
        exact absurd hgoes (not_continues_seam fun hlt => (hcuts hlt).1)
      · rwa [Text.continues_congr (List.getElem?_append_left (by omega))] at hgoes
    have hold := hflat k file offset other hentry hother hnext
    rw [List.getElem?_append_left (List.getElem?_eq_some_iff.1 hold).1, hold]
  · rw [List.getElem?_append_right hk] at hentry
    have hinside := (List.getElem?_eq_some_iff.1 hentry).1
    rw [length_provenances] at hinside
    rw [getElem?_provenances hinside] at hentry
    obtain ⟨rfl, rfl⟩ : id = file ∧ start + (k - flat.entries.length) = offset := by
      simpa using hentry
    obtain rfl : copy = other := Option.some.inj (hcopy.symm.trans hother)
    by_cases hlast : k - flat.entries.length + 1 = stop - start
    · -- The piece ends here, and nothing goes on at its end.
      have hend : start + (k - flat.entries.length) + 1 = stop := by omega
      rw [hend] at hgoes
      rcases hgoes with hgoes | hgoes
      · have hshort := hgoes.lt_length
        rw [List.length_append, cutOut, List.length_take] at hshort
        omega
      · exact absurd hgoes (Text.not_continues_of_isBoundary (hcuts (by omega)).2)
    · rw [List.getElem?_append_right (by omega), Nat.sub_add_comm hk,
        getElem?_provenances (by omega)]
      rfl

theorem Unsplit.retract {files : FileSet} {flat flat' : Flat} {count : Nat}
    (hflat : flat.Unsplit) (hstep : InStep files flat) (h : flat.retract count = .ok flat') :
    flat'.Unsplit := by
  obtain ⟨-, hfiles, hbytes, hentries⟩ := retract_eq_ok h
  have hcut := isBoundary_of_retract_eq_ok h
  intro k file offset copy hentry hcopy hgoes
  rw [hfiles] at hcopy
  rw [hbytes] at hgoes
  rw [hentries] at hentry ⊢
  generalize flat.textBytes.length - count = size at hcut hentry hgoes ⊢
  have hk : k < size := by
    have hinside := (List.getElem?_eq_some_iff.1 hentry).1
    rw [List.length_take] at hinside
    omega
  rw [List.getElem?_take_of_lt hk] at hentry
  have hnext : Continues flat.textBytes (k + 1) ∨
      Continues (Text.bytes copy.content) (offset + 1) := by
    refine hgoes.imp_left fun hgoes => ?_
    have hinside := hgoes.lt_length
    rw [List.length_take] at hinside
    rwa [Text.continues_congr (List.getElem?_take_of_lt (by omega))] at hgoes
  have hold := hflat k file offset copy hentry hcopy hnext
  by_cases hlast : k + 1 = size
  · -- The text cannot be cut where a character goes on.
    have hcontinues : Continues flat.textBytes (k + 1) := by
      rcases hnext with hgoes | hgoes
      · exact hgoes
      · obtain ⟨found, hfound, hbyte⟩ := hstep.exists_copy hold
        obtain rfl : found = copy := Option.some.inj (hfound.symm.trans hcopy)
        exact (Text.continues_congr hbyte).2 hgoes
    rw [hlast] at hcontinues
    exact absurd hcontinues (Text.not_continues_of_isBoundary hcut)
  · rw [List.getElem?_take_of_lt (by omega), hold]

theorem Unsplit.enter {files : FileSet} {flat : Flat} (hflat : flat.Unsplit)
    (hstep : InStep files flat) (path content : String) :
    (flat.enter path content).1.Unsplit := by
  obtain ⟨hgrown, htext, horigins, -, -⟩ := enter_spec flat path content
  intro k file offset copy hentry hcopy hgoes
  rw [entries, horigins] at hentry ⊢
  rw [textBytes, htext] at hgoes
  -- The file was registered before, because an entry names it.
  obtain ⟨found, hfound, -⟩ := hstep.exists_copy hentry
  obtain rfl : found = copy :=
    Option.some.inj ((getElem?_files_of_grown hgrown hfound).symm.trans hcopy)
  exact hflat k file offset found hentry hfound hgoes

theorem preserved_unsplit (files : FileSet) :
    Preserved files fun flat => InStep files flat ∧ flat.Unsplit where
  enter := by
    rintro flat path content hread ⟨hstep, hflat⟩
    exact ⟨(preserved_inStep files).enter hread hstep, hflat.enter hstep path content⟩
  keep := by
    rintro flat flat' id path content start stop hread hid ⟨hstep, hflat⟩ h
    refine ⟨(preserved_inStep files).keep hread hid hstep h, ?_⟩
    obtain ⟨copy, hcopy, rfl⟩ := hid
    obtain rfl := hstep.content_eq hcopy hread
    exact hflat.keep hstep.stems.length_eq.symm hcopy h
  retract := by
    rintro flat flat' count ⟨hstep, hflat⟩ h
    exact ⟨(preserved_inStep files).retract hstep h, hflat.retract hstep h⟩

theorem unsplit_of_expand {files : FileSet} {options : Options} {main : String} {flat : Flat}
    (h : expand files options main = .ok flat) : flat.Unsplit := by
  have hempty : InStep files empty ∧ empty.Unsplit := by
    refine ⟨⟨by simp [empty], by simp [empty, textBytes, entries, Text.bytes]⟩, ?_⟩
    intro k file offset copy hentry
    simp [empty, entries] at hentry
  exact (expand_preserves (preserved_unsplit files) hempty h).2

end LatexOrigins.Flat
