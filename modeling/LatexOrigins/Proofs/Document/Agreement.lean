import LatexOrigins.Proofs.Document.Copied
import LatexOrigins.Proofs.Plain.Unmarked

/-!
# The two queries agree

A range of the plain text has the origin that the flat range has which it stems from: the
map leads each of its bytes into that range, and the positions in the plain text are
attached to whatever the flat range answers. In a text without markup both ranges are the
same, and so the two queries have the same answers.
-/

namespace LatexOrigins

/-- The answer to a query of the plain text agrees with the answer to a query of the flat
source: both fail, for the same cause, or both are origins with the same ends in the file
and in the flat source, and the first has the ends in the plain text in addition. -/
structure Document.Agrees (first last : Position) (answer other : Except Origin.Error Origin) :
    Prop where
  ok_iff : (∃ o, answer = .ok o) ↔ ∃ o, other = .ok o
  error_iff : ∀ cause, answer = .error cause ↔ other = .error cause
  same : ∀ o o', answer = .ok o → other = .ok o' →
    o.file = o'.file ∧ o.fileId = o'.fileId ∧ o.start.place = o'.start.place ∧
      o.stop.place = o'.stop.place ∧ o.start.source = o'.start.source ∧
      o.stop.source = o'.stop.source
  text : ∀ o, answer = .ok o → o.start.text = some first ∧ o.stop.text = some last

theorem LinedText.eq_of_text {t u : LinedText} (h : t.text = u.text) : t = u := by
  cases t
  cases u
  simp_all

namespace Document

variable {d : Document} {b e x y : Nat}

theorem agrees_map (first last : Position) (other : Except Origin.Error Origin) :
    Agrees first last (other.map fun o => o.withText first last) other := by
  cases other with
  | error cause =>
      refine ⟨?_, fun _ => Iff.rfl, ?_, ?_⟩
      · constructor <;> rintro ⟨o, ho⟩ <;> cases ho
      · intro o o' ho
        cases ho
      · intro o ho
        cases ho
  | ok o =>
      refine ⟨⟨fun _ => ⟨o, rfl⟩, fun _ => ⟨_, rfl⟩⟩, ?_, ?_, ?_⟩
      · intro cause
        constructor <;> intro h <;> cases h
      · intro attached o' hattached ho'
        obtain rfl := Except.ok.inj hattached
        obtain rfl := Except.ok.inj ho'
        exact ⟨rfl, rfl, rfl, rfl, rfl, rfl⟩
      · intro attached hattached
        obtain rfl := Except.ok.inj hattached
        exact ⟨rfl, rfl⟩

theorem originOfText_agrees_range (d : Document) (hlt : b < e) (hle : e ≤ d.plain.lined.size) :
    ∃ x last, d.plain.map[b]? = some x ∧ d.plain.map[e - 1]? = some last ∧
      Agrees (d.plain.lined.position b) (d.plain.lined.position e)
        (d.originOfText (.offset b) (.offset e))
        (d.originOfSource (.offset x) (.offset (last + 1))) ∧
      ∀ k, b ≤ k → k < e → ∃ y, d.plain.map[k]? = some y ∧ x ≤ y ∧ y < last + 1 := by
  obtain ⟨x, last, hx, hlast, hxlast, hinside⟩ := d.exists_stemsFrom hlt hle
  refine ⟨x, last, hx, hlast, ?_, fun k hbk hke => ?_⟩
  · rw [d.originOfText_eq_map hlt hx hlast,
      d.originOfSource_offsets (Nat.lt_succ_of_le hxlast) hinside]
    exact agrees_map _ _ _
  · have hk : k < d.plain.map.size := by
      rw [d.plain.size_map]
      omega
    have hy := Array.getElem?_eq_getElem hk
    exact ⟨_, hy, map_le hbk hx hy, Nat.lt_succ_of_le (map_le (Nat.le_sub_one_of_lt hke) hy hlast)⟩

/-- Where the plain text is the flat text and each byte stems from itself, both queries
have the same answers. -/
theorem originOfText_agrees_same (d : Document) (htext : d.text = d.flatText)
    (hmap : d.plain.map = (List.range d.flatText.utf8ByteSize).toArray) (hlt : b < e) :
    Agrees (d.plain.lined.position b) (d.plain.lined.position e)
      (d.originOfText (.offset b) (.offset e)) (d.originOfSource (.offset b) (.offset e)) := by
  have hlined : d.plain.lined = d.source.flat := LinedText.eq_of_text htext
  by_cases hle : e ≤ d.source.flat.size
  · have hentry {k : Nat} (hk : k < d.source.flat.size) : d.plain.map[k]? = some k := by
      rw [hmap, List.getElem?_toArray]
      exact List.getElem?_range hk
    have hlast : d.plain.map[e - 1]? = some (e - 1) := hentry (by omega)
    rw [d.originOfText_eq_map hlt (hentry (by omega)) hlast, Nat.sub_add_cancel (by omega),
      d.originOfSource_offsets hlt hle]
    exact agrees_map _ _ _
  · cases hrange : locateRange d.source.flat (.offset b) (.offset e) with
    | ok range => exact absurd (locateRange_offsets_eq_ok hrange).2.1 hle
    | error cause =>
        rw [originOfText_eq_error (hlined ▸ hrange), originOfSource_eq_error hrange]
        exact agrees_map _ _ (.error cause)

/-- A range of the plain text has an origin exactly if the flat range has that it stems
from, in the same place, and the map leads each byte of the range into that flat range. In
a document whose flat text is stripped of nothing, because it has no markup, the plain text
is the flat text, and the two queries agree on every range. -/
theorem queries_agree (d : Document) :
    (∀ b e, b < e → e ≤ d.plain.lined.size →
      ∃ x last, d.plain.map[b]? = some x ∧ d.plain.map[e - 1]? = some last ∧
        Agrees (d.plain.lined.position b) (d.plain.lined.position e)
          (d.originOfText (.offset b) (.offset e))
          (d.originOfSource (.offset x) (.offset (last + 1))) ∧
        ∀ k, b ≤ k → k < e → ∃ y, d.plain.map[k]? = some y ∧ x ≤ y ∧ y < last + 1) ∧
    ∀ options, Plain.strip options d.flatText = .ok (d.text, d.plain.map) →
      Plain.Unmarked d.flatText →
      d.text = d.flatText ∧ ∀ b e, b < e →
        Agrees (d.plain.lined.position b) (d.plain.lined.position e)
          (d.originOfText (.offset b) (.offset e)) (d.originOfSource (.offset b) (.offset e)) := by
  refine ⟨fun b e hlt hle => d.originOfText_agrees_range hlt hle,
    fun options hstrip hunmarked => ?_⟩
  have hsame := hstrip.symm.trans (Plain.strip_unmarked options hunmarked)
  obtain ⟨htext, hmap⟩ := Prod.mk.inj (Except.ok.inj hsame)
  exact ⟨htext, fun b e hlt => d.originOfText_agrees_same htext hmap hlt⟩

/-- A plain text whose first two bytes stem from one flat byte, and whose last one stems
from a byte some way behind; ranges are cut to three bytes. -/
def gapped : Document where
  source := loneBytes.source
  plain := ⟨.ofString "wxyz", #[1, 1, 2, 5], rfl, by decide⟩
  spanLimit := 3
  spanLimit_pos := by decide
  fits := by decide +kernel

/-- A file without markup but for a comment and an inclusion. -/
def unmarkedFiles : MemoryFiles :=
  .ofList "/" [("main.tex", "a\n% x\nb\\input\x7bs\x7d"), ("s.tex", "é!")]

/-- The flat range of five bytes that `xyz` stems from is cut to three, and the origin has
the positions in the plain text all the same. -/
theorem queries_agree_gapped :
    (∃ o, gapped.originOfText (.offset 1) (.offset 4) = .ok o ∧ o.fileSpan = (13, 14) ∧
      o.sourceSpan = (3, 6) ∧ o.textSpan = some (1, 4)) ∧
    (∃ x last, gapped.plain.map[1]? = some x ∧ gapped.plain.map[3]? = some last ∧
      Agrees (gapped.plain.lined.position 1) (gapped.plain.lined.position 4)
        (gapped.originOfText (.offset 1) (.offset 4))
        (gapped.originOfSource (.offset x) (.offset (last + 1))) ∧
      ∀ k, 1 ≤ k → k < 4 → ∃ y, gapped.plain.map[k]? = some y ∧ x ≤ y ∧ y < last + 1) ∧
    ∃ d, build unmarkedFiles.toFileSet .standard "main.tex" = .ok d ∧
      Plain.strip .standard d.flatText = .ok (d.text, d.plain.map) ∧
      Plain.Unmarked d.flatText ∧ d.text = d.flatText ∧
      Agrees (d.plain.lined.position 0) (d.plain.lined.position 6)
        (d.originOfText (.offset 0) (.offset 6)) (d.originOfSource (.offset 0) (.offset 6)) := by
  have hbuild : (build unmarkedFiles.toFileSet .standard "main.tex").toOption.map (·.flatText) =
      some "a\nbé!" := by
    decide +kernel
  obtain ⟨d, hd, htext⟩ := Option.map_eq_some_iff.1 hbuild
  have hd := Results.toOption_eq_some.1 hd
  obtain ⟨flat, -, hbuilt⟩ := exists_builtFrom hd
  have hstrip : Plain.strip .standard d.flatText = .ok (d.text, d.plain.map) :=
    hbuilt.flatText ▸ hbuilt.strip_eq
  have hunmarked : Plain.Unmarked d.flatText := htext ▸ by decide +kernel
  obtain ⟨hsame, hagrees⟩ := (queries_agree d).2 .standard hstrip hunmarked
  exact ⟨⟨_, rfl, rfl, rfl, rfl⟩, (queries_agree gapped).1 1 4 (by decide) (by decide), d, hd,
    hstrip, hunmarked, hsame, hagrees 0 6 (by decide)⟩

end Document

end LatexOrigins
