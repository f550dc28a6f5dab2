import LatexOrigins.Proofs.Document.Tracing
import LatexOrigins.Proofs.Text.Addressing

/-!
# Which answer a query gets

A query for the origin of a range has one of five kinds of answer, and each kind
has its own condition: an address that names nothing, an empty range, a range of
which no byte that counts comes from a file, or else an origin. The other errors
of tracing, and faults, are never met, as long as words can count so far: the sum
that a line and a column lead to may be too large, and then a query stops or takes
the address for another one. The two queries differ only in the text that their
addresses speak of and in the flat range that a range of it stems from.
-/

namespace LatexOrigins

/-- The counts of an address are words. -/
def Address.Fits : Address → Prop
  | .offset n => n < wordLimit
  | .lineColumn line column => line < wordLimit ∧ column < wordLimit

namespace LinedText

/-- The offset that an address names: any offset up to the end of the text, or a
column of an existing line up to the end of that line with its break. -/
inductive Names (t : LinedText) : Address → Nat → Prop where
  | offset {n : Nat} (h : n ≤ t.size) : Names t (.offset n) n
  | lineColumn {line column : Nat} (hline : line < t.lineCount)
      (hcolumn : t.lineStart line + column ≤ t.lineEnd line) :
      Names t (.lineColumn line column) (t.lineStart line + column)

variable {t : LinedText} {address : Address} {n m : Nat}

theorem Names.unique (hn : t.Names address n) (hm : t.Names address m) : n = m := by
  cases hn <;> cases hm <;> rfl

theorem Names.le_size (h : t.Names address n) : n ≤ t.size := by
  cases h with
  | offset h => exact h
  | lineColumn _ hcolumn => exact hcolumn.trans (t.lineEnd_le_size _)

theorem Names.exists_find? (h : t.Names address n) :
    ∃ p, t.find? address = some p ∧ p.offset = n := by
  cases h with
  | offset h => exact ⟨t.position n, by rw [find?, if_pos h], rfl⟩
  | @lineColumn line column hline hcolumn =>
      refine ⟨⟨t.lineStart line + column, line, column⟩, ?_, rfl⟩
      rw [find?, if_pos hline]
      exact if_pos hcolumn

theorem names_of_find? {p : Position} (h : t.find? address = some p) :
    t.Names address p.offset := by
  unfold find? at h
  split at h
  · split at h
    · next hle =>
      obtain rfl := Option.some.inj h
      exact Names.offset hle
    · simp at h
  · split at h
    · next hline =>
      simp only at h
      split at h
      · next hcolumn =>
        obtain rfl := Option.some.inj h
        exact Names.lineColumn hline hcolumn
      · simp at h
    · simp at h

/-! ## Sums that no word holds -/

/-- On the way to two positions a sum is met that no word holds. The second address is looked
at if the first one names a place. -/
def Overruns (t : LinedText) (start stop : Address) : Prop :=
  t.Overflows start ∨ (∃ n, t.Names start n) ∧ t.Overflows stop

theorem not_overruns_offsets (t : LinedText) (b e : Nat) :
    ¬ t.Overruns (.offset b) (.offset e) := by
  rintro (h | ⟨-, h⟩)
  · exact h
  · exact h

theorem Names.not_overflows (h : t.Names address n) : ¬ t.Overflows address := by
  intro hoverflows
  cases h with
  | offset => exact hoverflows
  | @lineColumn line column _ hcolumn =>
      have hsize := hoverflows.2.1
      have hinside := t.lineEnd_le_size line
      omega

theorem check?_offset_le {overflow : Overflow} {p : Position}
    (h : t.check? overflow address = .ok (some p)) : p.offset ≤ t.size := by
  cases address with
  | offset n => exact (names_of_find? (Except.ok.inj h)).le_size
  | lineColumn line column =>
      rw [check?] at h
      split at h
      · obtain ⟨n, -, h⟩ := Results.bind_eq_ok.1 h
        split at h
        · next hinside =>
          obtain rfl := Option.some.inj (Except.ok.inj h)
          exact hinside.trans (t.lineEnd_le_size line)
        · cases h
      · cases h

/-- Where the sum wraps, another place is found for the address. -/
theorem exists_wrapped (hfits : address.Fits) (h : t.Overflows address) :
    ∃ p, t.check? .wraps address = .ok (some p) := by
  cases address with
  | offset => exact h.elim
  | lineColumn line column =>
      obtain ⟨hline, hsize, hlimit⟩ := h
      obtain ⟨n, hsum, hlt⟩ := Overflow.exists_wraps_add hfits.2 hlimit
      have hinside : n ≤ t.lineEnd line := by
        have hend := t.edge_le_succ line
        rw [lineStart_eq_edge hline] at hlt
        exact hlt.le.trans hend
      refine ⟨⟨n, line, column⟩, ?_⟩
      rw [check?, if_pos hline, columnOffset, if_neg (Nat.not_le.2 hsize), hsum, Results.ok_bind,
        if_pos hinside]
      rfl

end LinedText

namespace Document

/-! ## Locating the ends -/

/-- The address that names nothing, where one does. The start is looked at before
the end. -/
inductive Refused (text : LinedText) (start stop : Address) : Address → Prop where
  | start (h : ¬ ∃ n, text.Names start n) : Refused text start stop start
  | stop {b : Nat} (hstart : text.Names start b) (h : ¬ ∃ n, text.Names stop n) :
      Refused text start stop stop

section Locating

variable {text : LinedText} {start stop address : Address}

theorem Refused.unique {other : Address} (h : Refused text start stop address)
    (hother : Refused text start stop other) : address = other := by
  cases h with
  | start hstart =>
      cases hother with
      | start => rfl
      | stop hnames => exact absurd ⟨_, hnames⟩ hstart
  | stop hnames =>
      cases hother with
      | start hstart => exact absurd ⟨_, hnames⟩ hstart
      | stop => rfl

theorem Refused.not_names {b e : Nat} (h : Refused text start stop address)
    (hb : text.Names start b) (he : text.Names stop e) : False := by
  cases h with
  | start hstart => exact hstart ⟨b, hb⟩
  | stop _ hstop => exact hstop ⟨e, he⟩

def refusal (text : LinedText) : Address → Origin.Error
  | .offset offset => .outOfBounds offset text.size
  | .lineColumn line column => .badAddress (.lineColumn line column)

theorem locate_of_check? {overflow : Overflow} {found : Option Position}
    (h : text.check? overflow address = .ok found) :
    locate text address overflow = found.elim (.error (refusal text address)) .ok := by
  unfold locate
  rw [h]
  cases found with
  | some p => rfl
  | none => cases address <;> rfl

theorem locate_of_fault {overflow : Overflow} {cause : Fault}
    (h : text.check? overflow address = .error cause) :
    locate text address overflow = .error (.fault cause) := by
  unfold locate
  rw [h]
  rfl

theorem locate_of_find? {p : Position} (h : text.find? address = some p) :
    locate text address = .ok p := by
  have hfits := (LinedText.names_of_find? h).not_overflows
  rw [locate_of_check? (LinedText.check?_eq_find? hfits .stops), h]
  rfl

theorem locate_eq_ok {n : Nat} (h : text.Names address n) :
    ∃ p, locate text address = .ok p ∧ p.offset = n := by
  obtain ⟨p, hp, hoffset⟩ := h.exists_find?
  exact ⟨p, locate_of_find? hp, hoffset⟩

theorem locate_eq_error (hfits : ¬ text.Overflows address) (h : ¬ ∃ n, text.Names address n) :
    locate text address = .error (refusal text address) := by
  have hnone : text.find? address = none := by
    rw [Option.eq_none_iff_forall_ne_some]
    intro p hp
    exact h ⟨p.offset, LinedText.names_of_find? hp⟩
  rw [locate_of_check? (LinedText.check?_eq_find? hfits .stops), hnone]
  rfl

theorem locate_overflows (h : text.Overflows address) :
    locate text address = .error (.fault .overflow) :=
  locate_of_fault (LinedText.check?_stops h)

theorem locate_agrees (h : ¬ text.Overflows address) (overflow : Overflow) :
    locate text address overflow = locate text address := by
  unfold locate
  rw [LinedText.check?_eq_find? h, LinedText.check?_eq_find? h]

theorem locateRange_refused (hfits : ¬ text.Overruns start stop)
    (h : Refused text start stop address) :
    locateRange text start stop = .error (refusal text address) := by
  cases h with
  | start h =>
      rw [locateRange, locate_eq_error (fun hstart => hfits (.inl hstart)) h]
      rfl
  | stop hnames h =>
      obtain ⟨p, hp, -⟩ := locate_eq_ok hnames
      rw [locateRange, hp, Results.ok_bind,
        locate_eq_error (fun hstop => hfits (.inr ⟨⟨_, hnames⟩, hstop⟩)) h]
      rfl

theorem locateRange_overruns (h : text.Overruns start stop) :
    locateRange text start stop = .error (.fault .overflow) := by
  rcases h with h | ⟨⟨n, hnames⟩, h⟩
  · rw [locateRange, locate_overflows h]
    rfl
  · obtain ⟨p, hp, -⟩ := locate_eq_ok hnames
    rw [locateRange, hp, Results.ok_bind, locate_overflows h]
    rfl

/-- As long as no sum is too large it does not matter what becomes of such a sum. -/
theorem locateRange_agrees (h : ¬ text.Overruns start stop) (overflow : Overflow) :
    locateRange text start stop overflow = locateRange text start stop := by
  have hstart : ¬ text.Overflows start := fun hstart => h (.inl hstart)
  rw [locateRange, locateRange, locate_agrees hstart]
  by_cases hnames : ∃ n, text.Names start n
  · have hstop : ¬ text.Overflows stop := fun hstop => h (.inr ⟨hnames, hstop⟩)
    rw [locate_agrees hstop]
  · rw [locate_eq_error hstart hnames]
    rfl

theorem refusal_injective {other : Address} (h : refusal text address = refusal text other) :
    address = other := by
  cases address <;> cases other <;> cases h <;> rfl

theorem locate_eq_refusal {other : Address} {overflow : Overflow}
    (h : locate text other overflow = .error (refusal text address)) : other = address := by
  cases hcheck : text.check? overflow other with
  | error cause =>
      rw [locate_of_fault hcheck] at h
      cases address <;> cases h
  | ok found =>
      rw [locate_of_check? hcheck] at h
      cases found with
      | none => exact refusal_injective (Except.error.inj h)
      | some p => cases h

theorem locate_offset_le {overflow : Overflow} {p : Position}
    (h : locate text address overflow = .ok p) : p.offset ≤ text.size := by
  cases hcheck : text.check? overflow address with
  | error cause =>
      rw [locate_of_fault hcheck] at h
      cases h
  | ok found =>
      rw [locate_of_check? hcheck] at h
      cases found with
      | none => cases h
      | some q =>
          obtain rfl := Except.ok.inj h
          exact LinedText.check?_offset_le hcheck

theorem locate_ne_refusal (hfits : address.Fits) (h : text.Overflows address)
    (overflow : Overflow) : locate text address overflow ≠ .error (refusal text address) := by
  intro hrefused
  cases overflow with
  | stops =>
      rw [locate_overflows h] at hrefused
      cases address <;> cases hrefused
  | wraps =>
      obtain ⟨p, hp⟩ := LinedText.exists_wrapped hfits h
      rw [locate_of_check? hp] at hrefused
      cases hrefused

theorem locate_of_locateRange {overflow : Overflow}
    (h : locateRange text start stop overflow = .error (refusal text address)) :
    locate text address overflow = .error (refusal text address) := by
  rcases Results.bind_eq_error.1 h with h | ⟨p, -, h⟩
  · obtain rfl := locate_eq_refusal h
    exact h
  · rcases Results.bind_eq_error.1 h with h | ⟨q, -, h⟩
    · obtain rfl := locate_eq_refusal h
      exact h
    · split at h
      · cases h
      · cases address <;> cases h

theorem lt_of_locateRange {overflow : Overflow} {p q : Position}
    (h : locateRange text start stop overflow = .ok (p, q)) :
    p.offset < q.offset ∧ q.offset ≤ text.size := by
  obtain ⟨first, -, h⟩ := Results.bind_eq_ok.1 h
  obtain ⟨last, hlast, h⟩ := Results.bind_eq_ok.1 h
  split at h
  · next hlt =>
    obtain ⟨rfl, rfl⟩ := Prod.mk.inj (Except.ok.inj h)
    exact ⟨hlt, locate_offset_le hlast⟩
  · cases h

/-- A sum that is too large is met at an address that is to be refused, and there it is not. -/
theorem exists_refused_of_overruns (hstart : start.Fits) (hstop : stop.Fits)
    (h : text.Overruns start stop) (overflow : Overflow) :
    ∃ address, Refused text start stop address ∧
      locate text address overflow ≠ .error (refusal text address) := by
  rcases h with h | ⟨⟨n, hnames⟩, h⟩
  · exact ⟨start, .start fun ⟨_, hnames⟩ => hnames.not_overflows h,
      locate_ne_refusal hstart h overflow⟩
  · exact ⟨stop, .stop hnames fun ⟨_, hnames⟩ => hnames.not_overflows h,
      locate_ne_refusal hstop h overflow⟩

theorem locateRange_empty {b e : Nat} (hb : text.Names start b) (he : text.Names stop e)
    (hle : e ≤ b) : locateRange text start stop = .error (.emptyRange b e) := by
  obtain ⟨p, hp, rfl⟩ := locate_eq_ok hb
  obtain ⟨q, hq, rfl⟩ := locate_eq_ok he
  rw [locateRange, hp, Results.ok_bind, hq, Results.ok_bind]
  exact if_neg (Nat.not_lt.2 hle)

theorem locateRange_eq_ok {b e : Nat} (hb : text.Names start b) (he : text.Names stop e)
    (hlt : b < e) : ∃ first last, locateRange text start stop = .ok (first, last) ∧
      first.offset = b ∧ last.offset = e := by
  obtain ⟨p, hp, rfl⟩ := locate_eq_ok hb
  obtain ⟨q, hq, rfl⟩ := locate_eq_ok he
  refine ⟨p, q, ?_, rfl, rfl⟩
  rw [locateRange, hp, Results.ok_bind, hq, Results.ok_bind]
  exact if_pos hlt

theorem refused_or_names (text : LinedText) (start stop : Address) :
    (∃ address, Refused text start stop address) ∨
      ∃ b e, text.Names start b ∧ text.Names stop e := by
  by_cases hstart : ∃ b, text.Names start b
  · obtain ⟨b, hb⟩ := hstart
    by_cases hstop : ∃ e, text.Names stop e
    · obtain ⟨e, he⟩ := hstop
      exact Or.inr ⟨b, e, hb, he⟩
    · exact Or.inl ⟨stop, Refused.stop hb hstop⟩
  · exact Or.inl ⟨start, Refused.start hstart⟩

end Locating

/-! ## Answers -/

/-- Where the bytes of a flat range start that count: at most as many of the last
ones as the limit lets. -/
def countedFrom (d : Document) (x y : Nat) : Nat := y - min (y - x) d.spanLimit

/-- The flat range that a range of the plain text stems from. -/
def StemsFrom (d : Document) (b e x y : Nat) : Prop :=
  d.plain.map[b]? = some x ∧ ∃ last, d.plain.map[e - 1]? = some last ∧ y = last + 1

section Answers

variable (d : Document) (text : LinedText) (stems : Nat → Nat → Nat → Nat → Prop)
  (start stop : Address)

/-- Why a query has no origin to answer with. `text` is the text that the addresses
speak of, and `stems` relates a range of it to the flat range that it stems from. -/
inductive Cause : Origin.Error → Prop where
  | refused {address : Address} (h : Refused text start stop address) :
      Cause (refusal text address)
  | empty {b e : Nat} (hb : text.Names start b) (he : text.Names stop e) (hle : e ≤ b) :
      Cause (.emptyRange b e)
  | lost {b e x y : Nat} (hb : text.Names start b) (he : text.Names stop e) (hlt : b < e)
      (hstems : stems b e x y) (h : ¬ d.source.Touches (d.countedFrom x y) y) :
      Cause (.noOrigin (d.countedFrom x y) y)

/-- The addresses enclose something, and of the flat range that it stems from a byte
that counts comes from a file. -/
def Answerable : Prop :=
  ∃ b e x y, text.Names start b ∧ text.Names stop e ∧ b < e ∧ stems b e x y ∧
    d.source.Touches (d.countedFrom x y) y

/-- A query that is answered as it should be: with an error exactly when there is
that cause for it, otherwise with an origin. -/
structure Answered (answer : Except Origin.Error Origin) : Prop where
  error_iff : ∀ cause, answer = .error cause ↔ Cause d text stems start stop cause
  ok_iff : (∃ o, answer = .ok o) ↔ Answerable d text stems start stop
  ne_incoherent : ∀ x y, answer ≠ .error (.incoherent x y)
  ne_fileMismatch : ∀ path other, answer ≠ .error (.fileMismatch path other)
  ne_emptyOrigin : ∀ path x y, answer ≠ .error (.emptyOrigin path x y)
  ne_fault : ∀ cause, answer ≠ .error (.fault cause)

variable {d text stems start stop} {answer : Except Origin.Error Origin}
  {cause other : Origin.Error}

theorem Cause.unique
    (hstems : ∀ b e x y x' y', stems b e x y → stems b e x' y' → x = x' ∧ y = y')
    (h : Cause d text stems start stop cause) (hother : Cause d text stems start stop other) :
    cause = other := by
  cases h with
  | refused h =>
      cases hother with
      | refused h' => rw [h.unique h']
      | empty hb he | lost hb he => exact (h.not_names hb he).elim
  | empty hb he hle =>
      cases hother with
      | refused h' => exact (h'.not_names hb he).elim
      | empty hb' he' => rw [hb.unique hb', he.unique he']
      | lost hb' he' hlt =>
          rw [hb.unique hb', he.unique he'] at hle
          omega
  | lost hb he hlt hfrom h =>
      cases hother with
      | refused h' => exact (h'.not_names hb he).elim
      | empty hb' he' hle =>
          rw [hb.unique hb', he.unique he'] at hlt
          omega
      | lost hb' he' _ hfrom' =>
          obtain rfl := hb.unique hb'
          obtain rfl := he.unique he'
          obtain ⟨rfl, rfl⟩ := hstems _ _ _ _ _ _ hfrom hfrom'
          rfl

theorem Cause.not_answerable
    (hstems : ∀ b e x y x' y', stems b e x y → stems b e x' y' → x = x' ∧ y = y')
    (h : Cause d text stems start stop cause) : ¬ Answerable d text stems start stop := by
  rintro ⟨b', e', x', y', hb', he', hlt', hfrom', htouches⟩
  cases h with
  | refused h => exact h.not_names hb' he'
  | empty hb he hle =>
      rw [hb.unique hb', he.unique he'] at hle
      omega
  | lost hb he hlt hfrom h =>
      obtain rfl := hb.unique hb'
      obtain rfl := he.unique he'
      obtain ⟨rfl, rfl⟩ := hstems _ _ _ _ _ _ hfrom hfrom'
      exact h htouches

theorem Cause.kind (h : Cause d text stems start stop cause) :
    (∃ offset size, cause = .outOfBounds offset size) ∨ (∃ address, cause = .badAddress address) ∨
      (∃ b e, cause = .emptyRange b e) ∨ ∃ x y, cause = .noOrigin x y := by
  cases h with
  | @refused address =>
      cases address with
      | offset offset => exact Or.inl ⟨offset, text.size, rfl⟩
      | lineColumn line column => exact Or.inr (Or.inl ⟨_, rfl⟩)
  | empty => exact Or.inr (Or.inr (Or.inl ⟨_, _, rfl⟩))
  | lost => exact Or.inr (Or.inr (Or.inr ⟨_, _, rfl⟩))

/-- It is enough to have a cause for an error, and something to answer otherwise. -/
theorem answered_of_cause_or_answerable
    (hstems : ∀ b e x y x' y', stems b e x y → stems b e x' y' → x = x' ∧ y = y')
    (h : (∃ cause, answer = .error cause ∧ Cause d text stems start stop cause) ∨
      (∃ o, answer = .ok o) ∧ Answerable d text stems start stop) :
    Answered d text stems start stop answer := by
  have herror (cause : Origin.Error) :
      answer = .error cause ↔ Cause d text stems start stop cause := by
    constructor
    · rintro rfl
      rcases h with ⟨other, hanswer, hother⟩ | ⟨⟨o, ho⟩, -⟩
      · obtain rfl := Except.error.inj hanswer
        exact hother
      · cases ho
    · intro hcause
      rcases h with ⟨other, rfl, hother⟩ | ⟨-, hanswerable⟩
      · rw [hcause.unique hstems hother]
      · exact absurd hanswerable (hcause.not_answerable hstems)
  have hok : (∃ o, answer = .ok o) ↔ Answerable d text stems start stop := by
    rcases h with ⟨cause, rfl, hcause⟩ | ⟨hanswer, hanswerable⟩
    · constructor
      · rintro ⟨o, ho⟩
        cases ho
      · exact fun hanswerable => absurd hanswerable (hcause.not_answerable hstems)
    · exact ⟨fun _ => hanswerable, fun _ => hanswer⟩
  refine ⟨herror, hok, ?_, ?_, ?_, ?_⟩ <;> intros <;> intro hanswer <;>
    obtain ⟨_, _, hkind⟩ | ⟨_, hkind⟩ | ⟨_, _, hkind⟩ | ⟨_, _, hkind⟩ :=
      ((herror _).1 hanswer).kind <;> cases hkind

theorem countedFrom_eq_cutStart (d : Document) {x y : Nat} (h : x < y) :
    d.countedFrom x y = d.cutStart x y := by
  unfold countedFrom cutStart
  omega

theorem cause_or_answerable_of_stems {b e x y : Nat} (hb : text.Names start b)
    (he : text.Names stop e) (hlt : b < e) (hstems : stems b e x y) (hxy : x < y)
    (hy : y ≤ d.source.flat.size) :
    (∃ cause, d.originOfRange x y = .error cause ∧ Cause d text stems start stop cause) ∨
      (∃ o, d.originOfRange x y = .ok o) ∧ Answerable d text stems start stop := by
  have hcounted := d.countedFrom_eq_cutStart hxy
  by_cases htouches : d.source.Touches (d.cutStart x y) y
  · obtain ⟨o, ho, -⟩ := d.exists_originOfRange hxy hy htouches
    exact Or.inr ⟨⟨o, ho⟩, b, e, x, y, hb, he, hlt, hstems, hcounted ▸ htouches⟩
  · refine Or.inl ⟨_, d.originOfRange_eq_noOrigin hxy hy htouches, ?_⟩
    rw [← hcounted]
    exact Cause.lost hb he hlt hstems (hcounted ▸ htouches)

end Answers

/-! ## The queries -/

section Queries

variable {d : Document} {start stop : Address} {b e : Nat} {cause : Origin.Error}

theorem originOfSource_eq_error (h : locateRange d.source.flat start stop = .error cause) :
    d.originOfSource start stop = .error cause := by
  rw [originOfSource, h]
  rfl

theorem originOfSource_of_names (hb : d.source.flat.Names start b)
    (he : d.source.flat.Names stop e) : d.originOfSource start stop =
      if b < e then d.originOfRange b e else .error (.emptyRange b e) := by
  split
  · next hlt =>
    obtain ⟨first, last, hrange, rfl, rfl⟩ := locateRange_eq_ok hb he hlt
    rw [originOfSource, hrange]
    rfl
  · next hle => exact originOfSource_eq_error (locateRange_empty hb he (Nat.le_of_not_lt hle))

theorem map_le {p : Plain} {i j x y : Nat} (hij : i ≤ j) (hx : p.map[i]? = some x)
    (hy : p.map[j]? = some y) : x ≤ y := by
  obtain ⟨hi, rfl⟩ := Array.getElem?_eq_some_iff.1 hx
  obtain ⟨hj, rfl⟩ := Array.getElem?_eq_some_iff.1 hy
  rcases Nat.lt_or_eq_of_le hij with hlt | rfl
  · exact List.pairwise_iff_getElem.1 p.monotone i j hi hj hlt
  · exact Nat.le_refl _

/-- The map leads a range of the plain text to a flat range that is not empty,
because it never decreases, and that lies inside the flat text, because no entry
reaches past it. -/
theorem exists_stemsFrom (d : Document) {b e : Nat} (hlt : b < e) (hle : e ≤ d.plain.lined.size) :
    ∃ x last, d.plain.map[b]? = some x ∧ d.plain.map[e - 1]? = some last ∧
      x ≤ last ∧ last < d.source.flat.size := by
  have hb : b < d.plain.map.size := by
    rw [d.plain.size_map]
    omega
  have he : e - 1 < d.plain.map.size := by
    rw [d.plain.size_map]
    omega
  have hx := Array.getElem?_eq_getElem hb
  have hlast := Array.getElem?_eq_getElem he
  exact ⟨_, _, hx, hlast, map_le (Nat.le_sub_one_of_lt hlt) hx hlast,
    d.fits _ (Array.getElem_mem he)⟩

theorem sourceEnd?_eq_some {p : Plain} {e last : Nat} (he : 0 < e)
    (hlast : p.map[e - 1]? = some last) : p.sourceEnd? e = some (last + 1) := by
  cases e with
  | zero => omega
  | succ before =>
      rw [Nat.succ_sub_one] at hlast
      rw [Plain.sourceEnd?, Plain.sourceOffset?, hlast, Option.map_some]

theorem originOfText_eq_error (h : locateRange d.plain.lined start stop = .error cause) :
    d.originOfText start stop = .error cause := by
  rw [originOfText]
  simp only [h]
  rfl

theorem originOfText_of_locateRange {overflow : Overflow} {p q : Position}
    (hrange : locateRange d.plain.lined start stop overflow = .ok (p, q)) :
    ∃ x last, d.plain.map[p.offset]? = some x ∧ d.plain.map[q.offset - 1]? = some last ∧
      x ≤ last ∧ last < d.source.flat.size ∧
      d.originOfText start stop overflow =
        (d.originOfRange x (last + 1)).map fun o => o.withText p q := by
  obtain ⟨hlt, hsize⟩ := lt_of_locateRange hrange
  obtain ⟨x, last, hx, hlast, hle, hinside⟩ := d.exists_stemsFrom hlt hsize
  refine ⟨x, last, hx, hlast, hle, hinside, ?_⟩
  have hstart : d.plain.sourceOffset? p.offset = some x := hx
  have hstop := sourceEnd?_eq_some (Nat.zero_lt_of_lt hlt) hlast
  rw [originOfText]
  simp only [hrange, Results.ok_bind, hstart, hstop]
  rfl

theorem originOfText_of_find? {p q : Position} (hp : d.plain.lined.find? start = some p)
    (hq : d.plain.lined.find? stop = some q) (hlt : p.offset < q.offset) :
    ∃ x last, d.plain.map[p.offset]? = some x ∧ d.plain.map[q.offset - 1]? = some last ∧
      x ≤ last ∧ last < d.source.flat.size ∧
      d.originOfText start stop = (d.originOfRange x (last + 1)).map fun o => o.withText p q := by
  apply originOfText_of_locateRange
  rw [locateRange, locate_of_find? hp, locate_of_find? hq]
  exact if_pos hlt

theorem originOfText_of_empty (hb : d.plain.lined.Names start b) (he : d.plain.lined.Names stop e)
    (hle : e ≤ b) : d.originOfText start stop = .error (.emptyRange b e) :=
  originOfText_eq_error (locateRange_empty hb he hle)

theorem originOfRange_ne_refusal {x y : Nat} (hxy : x < y) (hy : y ≤ d.source.flat.size)
    (text : LinedText) (address : Address) :
    d.originOfRange x y ≠ .error (refusal text address) := by
  intro h
  by_cases htouches : d.source.Touches (d.cutStart x y) y
  · obtain ⟨o, ho, -⟩ := d.exists_originOfRange hxy hy htouches
    cases ho.symm.trans h
  · rw [d.originOfRange_eq_noOrigin hxy hy htouches] at h
    cases address <;> cases h

theorem locate_of_originOfSource {overflow : Overflow} {address : Address}
    (h : d.originOfSource start stop overflow = .error (refusal d.source.flat address)) :
    locate d.source.flat address overflow = .error (refusal d.source.flat address) := by
  rcases Results.bind_eq_error.1 h with h | ⟨⟨p, q⟩, hrange, h⟩
  · exact locate_of_locateRange h
  · obtain ⟨hlt, hle⟩ := lt_of_locateRange hrange
    exact absurd h (originOfRange_ne_refusal hlt hle _ _)

theorem locate_of_originOfText {overflow : Overflow} {address : Address}
    (h : d.originOfText start stop overflow = .error (refusal d.plain.lined address)) :
    locate d.plain.lined address overflow = .error (refusal d.plain.lined address) := by
  cases hrange : locateRange d.plain.lined start stop overflow with
  | error cause =>
      rw [originOfText] at h
      simp only [hrange] at h
      obtain rfl : cause = refusal d.plain.lined address := Except.error.inj h
      exact locate_of_locateRange hrange
  | ok range =>
      obtain ⟨x, last, -, -, hle, hinside, hanswer⟩ := originOfText_of_locateRange hrange
      rw [hanswer] at h
      have hnone := originOfRange_ne_refusal (Nat.lt_succ_of_le hle) hinside d.plain.lined address
      exact absurd (Results.map_eq_error.1 h) hnone

end Queries

theorem answered_originOfSource (d : Document) {start stop : Address}
    (hfits : ¬ d.source.flat.Overruns start stop) :
    Answered d d.source.flat (fun b e x y => x = b ∧ y = e) start stop
      (d.originOfSource start stop) := by
  apply answered_of_cause_or_answerable
  · rintro b e x y x' y' ⟨rfl, rfl⟩ ⟨rfl, rfl⟩
    exact ⟨rfl, rfl⟩
  · rcases refused_or_names d.source.flat start stop with ⟨address, h⟩ | ⟨b, e, hb, he⟩
    · exact Or.inl ⟨_, originOfSource_eq_error (locateRange_refused hfits h), Cause.refused h⟩
    · rw [originOfSource_of_names hb he]
      split
      · next hlt => exact cause_or_answerable_of_stems hb he hlt ⟨rfl, rfl⟩ hlt he.le_size
      · next hle => exact Or.inl ⟨_, rfl, Cause.empty hb he (Nat.le_of_not_lt hle)⟩

theorem answered_originOfText (d : Document) {start stop : Address}
    (hfits : ¬ d.plain.lined.Overruns start stop) :
    Answered d d.plain.lined d.StemsFrom start stop (d.originOfText start stop) := by
  apply answered_of_cause_or_answerable
  · rintro b e x y x' y' ⟨hx, last, hlast, rfl⟩ ⟨hx', last', hlast', rfl⟩
    obtain rfl := Option.some.inj (hx.symm.trans hx')
    obtain rfl := Option.some.inj (hlast.symm.trans hlast')
    exact ⟨rfl, rfl⟩
  · rcases refused_or_names d.plain.lined start stop with ⟨address, h⟩ | ⟨b, e, hb, he⟩
    · exact Or.inl ⟨_, originOfText_eq_error (locateRange_refused hfits h), Cause.refused h⟩
    · by_cases hlt : b < e
      · obtain ⟨p, hp, rfl⟩ := hb.exists_find?
        obtain ⟨q, hq, rfl⟩ := he.exists_find?
        obtain ⟨x, last, hx, hlast, hle, hsize, hanswer⟩ := originOfText_of_find? hp hq hlt
        have hstems : d.StemsFrom p.offset q.offset x (last + 1) := ⟨hx, last, hlast, rfl⟩
        rcases cause_or_answerable_of_stems hb he hlt hstems (Nat.lt_succ_of_le hle) hsize with
          ⟨cause, hrange, hcause⟩ | ⟨⟨o, hrange⟩, hanswerable⟩
        · exact Or.inl ⟨cause, by rw [hanswer, hrange]; rfl, hcause⟩
        · exact Or.inr ⟨⟨o.withText p q, by rw [hanswer, hrange]; rfl⟩, hanswerable⟩
      · have hle := Nat.le_of_not_lt hlt
        exact Or.inl ⟨_, originOfText_of_empty hb he hle, Cause.empty hb he hle⟩

theorem originOfSource_agrees {d : Document} {start stop : Address}
    (h : ¬ d.source.flat.Overruns start stop) (overflow : Overflow) :
    d.originOfSource start stop overflow = d.originOfSource start stop := by
  rw [originOfSource, originOfSource, locateRange_agrees h]

theorem originOfText_agrees {d : Document} {start stop : Address}
    (h : ¬ d.plain.lined.Overruns start stop) (overflow : Overflow) :
    d.originOfText start stop overflow = d.originOfText start stop := by
  rw [originOfText, originOfText]
  simp only [locateRange_agrees h overflow]

theorem not_overruns_of_originOfSource {d : Document} {start stop : Address} {o : Origin}
    (h : d.originOfSource start stop = .ok o) : ¬ d.source.flat.Overruns start stop := by
  intro hoverruns
  rw [originOfSource_eq_error (locateRange_overruns hoverruns)] at h
  cases h

theorem not_overruns_of_originOfText {d : Document} {start stop : Address} {o : Origin}
    (h : d.originOfText start stop = .ok o) : ¬ d.plain.lined.Overruns start stop := by
  intro hoverruns
  rw [originOfText_eq_error (locateRange_overruns hoverruns)] at h
  cases h

/-- A query that is answered as it should be exactly as long as no sum is too large. A program
that stops at such a sum stops. One that goes on with what is left of the sum takes the address
for another one, as long as the counts of the addresses are words themselves. -/
structure AnsweredUnlessOverrun (d : Document) (text : LinedText)
    (stems : Nat → Nat → Nat → Nat → Prop) (start stop : Address)
    (query : Overflow → Except Origin.Error Origin) : Prop where
  answered : ∀ overflow, ¬ text.Overruns start stop →
    Answered d text stems start stop (query overflow)
  stops : text.Overruns start stop → query .stops = .error (.fault .overflow)
  strays : ∀ overflow, start.Fits → stop.Fits → text.Overruns start stop →
    ¬ Answered d text stems start stop (query overflow)

theorem not_answered_of_overruns {d : Document} {text : LinedText}
    {stems : Nat → Nat → Nat → Nat → Prop} {start stop : Address} {overflow : Overflow}
    {answer : Except Origin.Error Origin} (hstart : start.Fits) (hstop : stop.Fits)
    (h : text.Overruns start stop)
    (hlocate : ∀ address, answer = .error (refusal text address) →
      locate text address overflow = .error (refusal text address)) :
    ¬ Answered d text stems start stop answer := by
  intro hanswered
  obtain ⟨address, hrefused, hlocated⟩ := exists_refused_of_overruns hstart hstop h overflow
  exact hlocated (hlocate address ((hanswered.error_iff _).2 (.refused hrefused)))

/-- A document of two lines without markup. -/
def twoLines : Document where
  source := {
    flat := .ofString "ab\ncd"
    files := #[⟨"/main.tex", .ofString "ab\ncd"⟩]
    origins := #[some ⟨0, 0⟩, some ⟨0, 1⟩, some ⟨0, 2⟩, some ⟨0, 3⟩, some ⟨0, 4⟩]
    size_origins := by decide
    holds := Source.holds_of_stray? (by decide +kernel) }
  plain := ⟨.ofString "ab\ncd", #[0, 1, 2, 3, 4], rfl, by decide⟩
  spanLimit := 1000
  spanLimit_pos := by decide
  fits := by decide +kernel

/-- The last column that a word can count. -/
def farColumn : Address := .lineColumn 1 (wordLimit - 1)

theorem fits_farColumn : farColumn.Fits := ⟨by decide, by decide⟩

theorem overflows_farColumn : twoLines.source.flat.Overflows farColumn :=
  ⟨by decide, by decide, by decide⟩

end Document

end LatexOrigins
