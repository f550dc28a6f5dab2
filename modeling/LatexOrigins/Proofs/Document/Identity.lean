import LatexOrigins.Proofs.Document.Stability
import LatexOrigins.Proofs.Origin.Order

/-!
# Equal origins

Origins count as equal when their offsets and the numbers of their files agree. A query
derives all else of an origin from these in one way: the path belongs to the number of the
file, and lines and columns belong to offsets, where the end of a span in a file counts on
the line of the byte before it. So origins of one document that count as equal are the same.
Only a query of the plain text by line and column can attach other columns.
-/

namespace LatexOrigins

theorem Pointer.eq_of_fields {p q : Pointer} (hplace : p.place = q.place)
    (hsource : p.source = q.source) (htext : p.text = q.text) : p = q := by
  cases p
  cases q
  cases hplace
  cases hsource
  cases htext
  rfl

namespace Document

/-- The lines and columns of an origin are those that belong to its offsets, and its path is
that of its file. -/
structure Derives (d : Document) (o : Origin) : Prop where
  place : ∃ file, d.source.file? o.fileId = some file ∧
    o.start.place = ⟨file.path, o.fileId, file.lined.position o.fileSpan.1⟩ ∧
    o.stop.place = ⟨file.path, o.fileId, (file.lined.position (o.fileSpan.2 - 1)).next⟩
  source_start : o.start.source = d.source.flat.position o.sourceSpan.1
  source_stop : o.stop.source = d.source.flat.position o.sourceSpan.2
  text_start : ∀ p, o.start.text = some p → p = d.plain.lined.position p.offset
  text_stop : ∀ p, o.stop.text = some p → p = d.plain.lined.position p.offset

variable {d : Document} {start stop : Address} {a b o : Origin} {p q : Position} {x y : Nat}

/-! ## Origins that count as equal -/

theorem key_eq_of_beq (h : (a == b) = true) :
    a.start.key = b.start.key ∧ a.stop.key = b.stop.key := by
  have hboth : (a.start == b.start) = true ∧ (a.stop == b.stop) = true := Bool.and_eq_true_iff.1 h
  exact ⟨of_decide_eq_true hboth.1, of_decide_eq_true hboth.2⟩

theorem beq_withText {p' q' : Position} (hp : p.offset = p'.offset) (hq : q.offset = q'.offset) :
    (o.withText p q == o.withText p' q') = true := by
  have hstart : (o.withText p q).start.key = (o.withText p' q').start.key :=
    congrArg (fun n => ({ o.start.key with text := n + 1 } : Pointer.Key)) hp
  have hstop : (o.withText p q).stop.key = (o.withText p' q').stop.key :=
    congrArg (fun n => ({ o.stop.key with text := n + 1 } : Pointer.Key)) hq
  exact Bool.and_eq_true_iff.2 ⟨decide_eq_true hstart, decide_eq_true hstop⟩

theorem text_eq_of_key {s t : Option Position}
    (hs : ∀ p, s = some p → p = d.plain.lined.position p.offset)
    (ht : ∀ p, t = some p → p = d.plain.lined.position p.offset)
    (h : s.elim 0 (·.offset + 1) = t.elim 0 (·.offset + 1)) : s = t := by
  cases s with
  | none =>
      cases t with
      | none => rfl
      | some q => cases h
  | some p =>
      cases t with
      | none => cases h
      | some q =>
          have hoffset : p.offset = q.offset := Nat.succ.inj h
          rw [hs p rfl, ht q rfl, hoffset]

/-- Derived origins that count as equal are the same. -/
theorem Derives.eq_of_beq (ha : d.Derives a) (hb : d.Derives b) (h : (a == b) = true) : a = b := by
  obtain ⟨hstart, hstop⟩ := key_eq_of_beq h
  obtain ⟨hsource, hid, hplace, htext⟩ := Pointer.Key.mk.inj hstart
  obtain ⟨hsource', -, hplace', htext'⟩ := Pointer.Key.mk.inj hstop
  have hfileId : a.fileId = b.fileId := hid
  have hfileSpan : a.fileSpan = b.fileSpan := Prod.ext hplace hplace'
  have hsourceSpan : a.sourceSpan = b.sourceSpan := Prod.ext hsource hsource'
  obtain ⟨file, hfile, hfirst, hlast⟩ := ha.place
  obtain ⟨other, hother, hfirst', hlast'⟩ := hb.place
  rw [hfileId] at hfile hfirst hlast
  obtain rfl : file = other := Option.some.inj (hfile.symm.trans hother)
  have hstarts : a.start = b.start := Pointer.eq_of_fields (by rw [hfirst, hfirst', hfileSpan])
    (by rw [ha.source_start, hb.source_start, hsourceSpan])
    (text_eq_of_key ha.text_start hb.text_start htext)
  have hstops : a.stop = b.stop := Pointer.eq_of_fields (by rw [hlast, hlast', hfileSpan])
    (by rw [ha.source_stop, hb.source_stop, hsourceSpan])
    (text_eq_of_key ha.text_stop hb.text_stop htext')
  cases a
  cases b
  cases hstarts
  cases hstops
  rfl

/-! ## Queries derive their origins -/

theorem exists_derived_of_fileSpan {first last : FilePlace}
    (h : d.source.fileSpan x y = .ok (some (first, last))) :
    ∃ file, d.source.file? first.file = some file ∧
      first = ⟨file.path, first.file, file.lined.position first.position.offset⟩ ∧
      last = ⟨file.path, first.file, (file.lined.position (last.position.offset - 1)).next⟩ := by
  obtain ⟨-, -, -, file, p, q, hfile, hline, hfirst, hlast⟩ := Source.exists_of_fileSpan h
  obtain ⟨line, final, hspans, rfl⟩ := exists_of_lineSpan hline
  obtain ⟨-, -, i, -, rfl⟩ := (Source.mem_onLine_positionsIn hfile).1 hspans.first_mem
  obtain ⟨-, -, j, -, rfl⟩ := (Source.mem_onLine_positionsIn hfile).1 hspans.last_mem
  have hfirstPosition : first.position = file.lined.position i := by rw [hfirst]
  have hlastPosition : last.position = (file.lined.position j).next := by rw [hlast]
  refine ⟨file, hfile, ?_, ?_⟩
  · rw [hfirstPosition]
    exact hfirst
  · rw [hlastPosition]
    exact hlast

theorem derives_of_originOfRange (hlt : x < y) (hle : y ≤ d.source.flat.size)
    (h : d.originOfRange x y = .ok o) : d.Derives o := by
  obtain ⟨first, last, hspan, -⟩ := Source.exists_fileSpan (d.cutStart_lt hlt) hle
    (touches_of_originOfRange hlt hle h)
  obtain ⟨hstart, hstop⟩ :=
    eq_of_ofPointers ((originOfRange_of_fileSpan hlt hle hspan).symm.trans h)
  obtain ⟨file, hfile, hfirst, hlast⟩ := exists_derived_of_fileSpan hspan
  have hid : o.fileId = first.file := by rw [Origin.fileId, hstart]
  have hfileSpan : o.fileSpan = (first.position.offset, last.position.offset) := by
    rw [Origin.fileSpan, hstart, hstop]
  refine ⟨⟨file, by rw [hid, hfile], ?_, ?_⟩, ?_, ?_, ?_, ?_⟩
  · rw [hid, hfileSpan, hstart]
    exact hfirst
  · rw [hid, hfileSpan, hstop]
    exact hlast
  · rw [Origin.sourceSpan, hstart]
    rfl
  · rw [Origin.sourceSpan, hstop]
    rfl
  · intro r hr
    rw [hstart] at hr
    cases hr
  · intro r hr
    rw [hstop] at hr
    cases hr

theorem Derives.withText (h : d.Derives o) (hp : p = d.plain.lined.position p.offset)
    (hq : q = d.plain.lined.position q.offset) : d.Derives (o.withText p q) := by
  refine ⟨h.place, h.source_start, h.source_stop, fun r hr => ?_, fun r hr => ?_⟩
  · obtain rfl : p = r := Option.some.inj hr
    exact hp
  · obtain rfl : q = r := Option.some.inj hr
    exact hq

theorem eq_position_of_find? {t : LinedText} {n : Nat} (h : t.find? (.offset n) = some p) :
    p = t.position p.offset := by
  unfold LinedText.find? at h
  simp only at h
  split at h
  · obtain rfl := Option.some.inj h
    rfl
  · cases h

theorem derives_of_offsets {first last : Nat}
    (h : d.originOfSource (.offset first) (.offset last) = .ok o ∨
      d.originOfText (.offset first) (.offset last) = .ok o) : d.Derives o := by
  rcases h with h | h
  · obtain ⟨b, e, -, -, hlt, hle, horigin⟩ := exists_range_of_originOfSource h
    exact derives_of_originOfRange hlt hle horigin
  · obtain ⟨p, q, x, y, found, hp, hq, hlt, hle, horigin, rfl⟩ := exists_range_of_originOfText h
    exact (derives_of_originOfRange hlt hle horigin).withText (eq_position_of_find? hp)
      (eq_position_of_find? hq)

/-! ## Queries by line and column -/

section Addresses

variable {first last : Nat}

theorem originOfSource_same (hb : d.source.flat.Names start first)
    (he : d.source.flat.Names stop last) :
    d.originOfSource start stop = d.originOfSource (.offset first) (.offset last) := by
  rw [originOfSource_of_names hb he, originOfSource_of_names (.offset hb.le_size)
    (.offset he.le_size)]

theorem originOfText_matched (hb : d.plain.lined.Names start first)
    (he : d.plain.lined.Names stop last) :
    Results.Matched (fun a b : Origin => (a == b) = true) (d.originOfText start stop)
      (d.originOfText (.offset first) (.offset last)) := by
  have hb' : d.plain.lined.Names (.offset first) first := .offset hb.le_size
  have he' : d.plain.lined.Names (.offset last) last := .offset he.le_size
  by_cases hlt : first < last
  · obtain ⟨p, hp, hpfirst⟩ := hb.exists_find?
    obtain ⟨q, hq, hqlast⟩ := he.exists_find?
    obtain ⟨p', hp', hpfirst'⟩ := hb'.exists_find?
    obtain ⟨q', hq', hqlast'⟩ := he'.exists_find?
    obtain ⟨x, y, hx, hy, -, -, hanswer⟩ := originOfText_of_find? hp hq (by omega)
    obtain ⟨x', y', hx', hy', -, -, hanswer'⟩ := originOfText_of_find? hp' hq' (by omega)
    rw [hpfirst] at hx
    rw [hqlast] at hy
    rw [hpfirst'] at hx'
    rw [hqlast'] at hy'
    obtain rfl : x = x' := Option.some.inj (hx.symm.trans hx')
    obtain rfl : y = y' := Option.some.inj (hy.symm.trans hy')
    rw [hanswer, hanswer']
    cases d.originOfRange x (y + 1) with
    | error cause => exact .error cause
    | ok found =>
        exact .ok (beq_withText (hpfirst.trans hpfirst'.symm) (hqlast.trans hqlast'.symm))
  · have hle := Nat.le_of_not_lt hlt
    rw [originOfText_of_empty hb he hle, originOfText_of_empty hb' he' hle]
    exact .error _

end Addresses

/-- An origin that a query by offsets answered with, of the flat source or the plain text. -/
def Answers (d : Document) (o : Origin) : Prop :=
  ∃ b e, d.originOfSource (.offset b) (.offset e) = .ok o ∨
    d.originOfText (.offset b) (.offset e) = .ok o

theorem Answers.derives (h : d.Answers o) : d.Derives o := by
  obtain ⟨b, e, h⟩ := h
  exact derives_of_offsets h

/-- The order of origins is total and transitive, and origins stand on a level in it exactly
if they count as equal. Two origins that a document answers queries by offsets with count as
equal exactly if they are the same in every field. A query of the flat source by line and
column has the answer of the query by offsets, and one of the plain text an equal answer. -/
theorem origins_identified (d : Document) :
    ((∀ a b : Origin, a.le b = true ∨ b.le a = true) ∧
      (∀ a b c : Origin, a.le b = true → b.le c = true → a.le c = true) ∧
      (∀ a b : Origin, a.le b = true → b.le a = true → (a == b) = true) ∧
      ∀ a b : Origin, compare a b = .eq ↔ (a == b) = true) ∧
    (∀ a b, d.Answers a → d.Answers b → ((a == b) = true ↔ a = b)) ∧
    (∀ start stop b e, d.source.flat.Names start b → d.source.flat.Names stop e →
      d.originOfSource start stop = d.originOfSource (.offset b) (.offset e)) ∧
    ∀ start stop b e, d.plain.lined.Names start b → d.plain.lined.Names stop e →
      Results.Matched (fun o o' : Origin => (o == o') = true) (d.originOfText start stop)
        (d.originOfText (.offset b) (.offset e)) := by
  refine ⟨⟨?_, ?_, ?_, ?_⟩, ?_, ?_, ?_⟩
  · exact fun a b => Bool.or_eq_true_iff.1 (Origin.le_total a b)
  · exact fun a b c => Origin.le_trans
  · exact fun a b hab hba => Origin.beq_iff_le.2 ⟨hab, hba⟩
  · exact fun a b => Origin.compare_eq_eq_iff
  · intro a b ha hb
    constructor
    · exact ha.derives.eq_of_beq hb.derives
    · rintro rfl
      exact Origin.beq_iff_le.2 ⟨Origin.le_refl a, Origin.le_refl a⟩
  · exact fun start stop b e hb he => originOfSource_same hb he
  · exact fun start stop b e hb he => originOfText_matched hb he

/-- A document whose two files share a path and a text. -/
def twins : Document where
  source := {
    flat := .ofString "x\nyx\ny"
    files := #[⟨"/a.tex", .ofString "x\ny"⟩, ⟨"/a.tex", .ofString "x\ny"⟩]
    origins := #[some ⟨0, 0⟩, some ⟨0, 1⟩, some ⟨0, 2⟩, some ⟨1, 0⟩, some ⟨1, 1⟩, some ⟨1, 2⟩]
    size_origins := rfl
    holds := Source.holds_of_stray? (by decide +kernel) }
  plain := ⟨.ofString "x\nyx\ny", #[0, 1, 2, 3, 4, 5], rfl, by decide⟩
  spanLimit := 8
  spanLimit_pos := by decide
  fits := by decide +kernel

def firstTwin : Origin where
  start := ⟨⟨"/a.tex", 0, ⟨0, 0, 0⟩⟩, ⟨0, 0, 0⟩, none⟩
  stop := ⟨⟨"/a.tex", 0, ⟨2, 0, 2⟩⟩, ⟨2, 1, 0⟩, none⟩
  same_path := rfl
  place_lt := by decide
  source_lt := by decide

def secondTwin : Origin where
  start := ⟨⟨"/a.tex", 1, ⟨0, 0, 0⟩⟩, ⟨3, 1, 1⟩, none⟩
  stop := ⟨⟨"/a.tex", 1, ⟨2, 0, 2⟩⟩, ⟨5, 2, 0⟩, none⟩
  same_path := rfl
  place_lt := by decide
  source_lt := by decide

/-- The origins of the first lines of the two files agree in their path and their offsets in
it, but they are not the same. By line and column the end of the first line of the plain text
is found on that line, as an offset it is found on the next one. -/
theorem origins_identified_twins :
    (twins.originOfSource (.offset 0) (.offset 2) = .ok firstTwin ∧
      twins.originOfText (.offset 0) (.offset 2) =
        .ok (firstTwin.withText ⟨0, 0, 0⟩ ⟨2, 1, 0⟩) ∧
      twins.originOfSource (.offset 3) (.offset 5) = .ok secondTwin ∧
      ((firstTwin == secondTwin) = true ↔ firstTwin = secondTwin) ∧
      firstTwin.le (firstTwin.withText ⟨0, 0, 0⟩ ⟨2, 1, 0⟩) = true ∧
      (firstTwin.withText ⟨0, 0, 0⟩ ⟨2, 1, 0⟩).le secondTwin = true ∧
      firstTwin.le secondTwin = true ∧ firstTwin.le firstTwin = true ∧
      (firstTwin == firstTwin) = true) ∧
    (twins.source.flat.Names (.lineColumn 0 2) 2 ∧ twins.source.flat.Names (.lineColumn 1 1) 3 ∧
      twins.originOfSource (.lineColumn 0 2) (.lineColumn 1 1) =
        twins.originOfSource (.offset 2) (.offset 3)) ∧
    twins.plain.lined.find? (.lineColumn 0 2) = some ⟨2, 0, 2⟩ ∧
      twins.plain.lined.find? (.offset 2) = some ⟨2, 1, 0⟩ ∧
      Results.Matched (fun o o' : Origin => (o == o') = true)
        (twins.originOfText (.lineColumn 0 2) (.lineColumn 1 1))
        (twins.originOfText (.offset 2) (.offset 3)) := by
  obtain ⟨⟨-, htrans, hantisymm, -⟩, hsame, hsource, htext⟩ := origins_identified twins
  have ha : twins.originOfSource (.offset 0) (.offset 2) = .ok firstTwin := rfl
  have hb : twins.originOfSource (.offset 3) (.offset 5) = .ok secondTwin := rfl
  have hstart : twins.source.flat.Names (.lineColumn 0 2) 2 := .lineColumn (by decide) (by decide)
  have hstop : twins.source.flat.Names (.lineColumn 1 1) 3 := .lineColumn (by decide) (by decide)
  have hbefore : firstTwin.le (firstTwin.withText ⟨0, 0, 0⟩ ⟨2, 1, 0⟩) = true := by decide
  have hbehind : (firstTwin.withText ⟨0, 0, 0⟩ ⟨2, 1, 0⟩).le secondTwin = true := by decide
  have hrefl : firstTwin.le firstTwin = true := by decide
  refine ⟨⟨ha, rfl, hb, ?_, hbefore, hbehind, htrans _ _ _ hbefore hbehind, hrefl,
    hantisymm _ _ hrefl hrefl⟩, ⟨hstart, hstop, hsource _ _ 2 3 hstart hstop⟩, by decide,
    by decide, htext _ _ 2 3 hstart hstop⟩
  exact hsame firstTwin secondTwin ⟨0, 2, .inl ha⟩ ⟨3, 5, .inl hb⟩

end Document

end LatexOrigins
