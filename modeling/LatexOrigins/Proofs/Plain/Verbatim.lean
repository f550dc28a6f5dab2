import LatexOrigins.Proofs.Markup.Verbatim
import LatexOrigins.Proofs.Plain.Behind

/-!
# Verbatim text in a plain text

Of a `\verb` command the text between its delimiters is left, and each of its bytes points to
itself.
-/

namespace LatexOrigins.Plain

open Markup

variable {before : String} (v : Verbatim)

theorem controlWord_verb (options : Options) {l : List UInt8} {g : Group}
    (h : verbArgument (l.drop 5) = some g) :
    controlWord options (Text.bytes "verb") 5 l =
      ⟨.copy (5 + g.start) (5 + g.stop), 5 + g.width⟩ := by
  have hother : ∀ text ∈ ["begin", "end", "ldots", "dots", "LaTeX", "TeX"],
      spells (Text.bytes "verb") text = false := by
    decide +kernel
  have hverb : spells (Text.bytes "verb") "verb" = true := by decide +kernel
  simp only [List.forall_mem_cons] at hother
  unfold controlWord
  simp [hother, hverb, h]

theorem opens_verbatim (options : Options) (behind : String) :
    Opens options (Text.bytes (v.source ++ behind))
      ⟨.copy v.lead (v.lead + v.text.utf8ByteSize), v.source.utf8ByteSize⟩ := by
  have hdrop := v.drop_source_append (Text.bytes behind)
  have harg := v.verbArgument_source (Text.bytes behind)
  have hstop := v.not_letter_behind (Text.bytes v.text ++ v.byte :: Text.bytes behind)
  rw [Text.bytes_append, v.utf8ByteSize_source, ← v.stop_eq, v.lead_eq]
  rw [v.bytes_source_append] at hdrop ⊢
  rw [← hdrop] at harg
  have hletters : ∀ b ∈ Text.bytes "verb", isLetter b = true := by decide +kernel
  have hname : 1 + (Text.bytes "verb").length = 5 := by decide +kernel
  have hopens := opens_word options (by decide +kernel) hletters hstop
  rwa [hname, controlWord_verb options harg] at hopens

/-- Behind bytes without markup the text of a `\verb` command is left as it is, each byte under
its own offset, and what follows is stripped as if it stood alone. -/
theorem strip_verbatim (options : Options) (hbefore : Unmarked before) (behind : String) :
    ∃ plain map, strip options behind = .ok (plain, map) ∧
      strip options (before ++ v.source ++ behind) = .ok (before ++ v.text ++ plain,
        (List.range before.utf8ByteSize ++
          List.range' (before.utf8ByteSize + v.lead) v.text.utf8ByteSize ++
          map.toList.map (before.utf8ByteSize + v.source.utf8ByteSize + ·)).toArray) := by
  obtain ⟨text, plain, map, hplain, htext, hbytes⟩ :=
    hbefore.strip_append (opens_verbatim v options behind)
  have hflat : (Text.bytes (before ++ v.source ++ behind)).drop (before.utf8ByteSize + v.lead) =
      Text.bytes v.text ++ v.byte :: Text.bytes behind := by
    rw [Text.bytes_append, Text.bytes_append, List.append_assoc, ← Text.length_bytes before,
      ← List.drop_drop, List.drop_left, v.drop_lead_append]
  have hwidth : before.utf8ByteSize + (v.lead + v.text.utf8ByteSize) -
      (before.utf8ByteSize + v.lead) = v.text.utf8ByteSize := by
    omega
  simp only [Residue.blocksAt, List.flatMap_singleton, Block.map, Block.bytes, hwidth, hflat] at *
  rw [← Text.length_bytes v.text, List.take_left, ← Text.bytes_append,
    ← Text.bytes_append] at hbytes
  obtain rfl := Text.bytes_injective hbytes
  exact ⟨plain, map, hplain, htext⟩

end LatexOrigins.Plain
