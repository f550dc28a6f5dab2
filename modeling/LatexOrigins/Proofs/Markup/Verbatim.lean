import LatexOrigins.Proofs.Markup.Search
import LatexOrigins.Proofs.Text.Encoded

/-!
# Verbatim text

A `\verb` command as it is written, with what may delimit its argument. Whatever follows,
the argument that is read is the text between the delimiters.
-/

namespace LatexOrigins.Markup

/-- A `\verb` command: whether it has a star, its delimiter, and the text in between. -/
structure Verbatim where
  starred : Bool
  delimiter : Char
  text : String
  graphic : '!' ≤ delimiter ∧ delimiter ≤ '~'
  symbol : delimiter.isAlpha = false
  unstarred : starred = false → delimiter ≠ '*'
  inside : ∀ c ∈ text.toList, c ≠ delimiter ∧ c ≠ '\n'

namespace Verbatim

def mark (v : Verbatim) : String := if v.starred then "*" else ""

/-- The command as it is written. -/
def source (v : Verbatim) : String :=
  "\\verb" ++ v.mark ++ String.singleton v.delimiter ++ v.text ++ String.singleton v.delimiter

/-- How many bytes stand before the text. -/
def lead (v : Verbatim) : Nat := 5 + v.mark.utf8ByteSize + 1

def byte (v : Verbatim) : UInt8 := v.delimiter.val.toUInt8

variable (v : Verbatim)

theorem ascii : v.delimiter.val ≤ 127 :=
  UInt32.le_trans v.graphic.2 (by decide)

theorem bytes_singleton : Text.bytes (String.singleton v.delimiter) = [v.byte] := by
  rw [Text.bytes_eq_flatMap, String.toList_singleton, List.flatMap_singleton]
  exact (Text.utf8EncodeChar_ascii v.ascii).1

theorem toNat_byte : v.byte.toNat = v.delimiter.val.toNat := (Text.utf8EncodeChar_ascii v.ascii).2

theorem isGraphic_byte : isGraphic v.byte = true := by
  have hlow : 0x21 ≤ v.delimiter.val.toNat := UInt32.le_iff_toNat_le.1 v.graphic.1
  have hhigh : v.delimiter.val.toNat ≤ 0x7e := UInt32.le_iff_toNat_le.1 v.graphic.2
  rw [isGraphic, Bool.and_eq_true, decide_eq_true_eq, decide_eq_true_eq, UInt8.le_iff_toNat_le,
    UInt8.le_iff_toNat_le, toNat_byte]
  exact ⟨hlow, hhigh⟩

theorem isLetter_byte : isLetter v.byte = false := by
  have hsymbol : (decide (65 ≤ v.delimiter.val ∧ v.delimiter.val ≤ 90) ||
      (decide (97 ≤ v.delimiter.val) && decide (v.delimiter.val ≤ 122))) = false := v.symbol
  rw [isLetter]
  simp only [UInt8.le_iff_toNat_le, toNat_byte]
  simp only [UInt32.le_iff_toNat_le, Bool.decide_and] at hsymbol
  exact hsymbol

theorem bytes_text : ∀ b ∈ Text.bytes v.text, b ≠ v.byte ∧ b ≠ lineBreak := by
  intro b hb
  constructor
  · rintro rfl
    exact (v.inside _ (Text.mem_toList_of_mem_bytes v.ascii hb)).1 rfl
  · rintro rfl
    exact (v.inside '\n' (Text.mem_toList_of_mem_bytes (by decide) hb)).2 rfl

theorem bytes_mark :
    Text.bytes v.mark = [] ∧ v.byte ≠ star ∨ Text.bytes v.mark = [star] := by
  by_cases hstarred : v.starred = true
  · right
    rw [mark, if_pos hstarred]
    decide +kernel
  · left
    rw [mark, if_neg hstarred]
    refine ⟨rfl, fun hbyte => ?_⟩
    have hnat : v.delimiter.val.toNat = 0x2a := by
      rw [← toNat_byte, hbyte]
      rfl
    exact v.unstarred (Bool.not_eq_true _ ▸ hstarred) (Char.ext (UInt32.toNat_inj.1 hnat))

theorem bytes_source_append (rest : List UInt8) :
    Text.bytes v.source ++ rest = backslash :: (Text.bytes "verb" ++
      (Text.bytes v.mark ++ v.byte :: (Text.bytes v.text ++ v.byte :: rest))) := by
  have hcommand : Text.bytes "\\verb" = backslash :: Text.bytes "verb" := by decide +kernel
  simp only [source, Text.bytes_append, bytes_singleton, hcommand, List.append_assoc,
    List.cons_append, List.nil_append]

theorem not_letter_behind (rest : List UInt8) :
    ∀ b ∈ (Text.bytes v.mark ++ v.byte :: rest).head?, ¬ isLetter b = true := by
  intro b hb
  rcases v.bytes_mark with ⟨hmark, -⟩ | hmark
  · rw [hmark] at hb
    obtain rfl := Option.some.inj hb
    rw [v.isLetter_byte]
    exact Bool.false_ne_true
  · rw [hmark] at hb
    obtain rfl := Option.some.inj hb
    decide

/-- The argument behind the name of the command. -/
def group : Group :=
  ⟨v.mark.utf8ByteSize + 1, v.mark.utf8ByteSize + 1 + v.text.utf8ByteSize, by omega, by omega⟩

theorem utf8ByteSize_source : v.source.utf8ByteSize = 5 + v.group.width := by
  have hcommand : "\\verb".utf8ByteSize = 5 := by decide
  have hdelimiter : (String.singleton v.delimiter).utf8ByteSize = 1 := by
    rw [← Text.length_bytes, bytes_singleton, List.length_singleton]
  simp only [source, String.utf8ByteSize_append, hcommand, hdelimiter, group, Group.width]
  omega

theorem verbArgument_source (rest : List UInt8) :
    verbArgument (Text.bytes v.mark ++ v.byte :: (Text.bytes v.text ++ v.byte :: rest)) =
      some v.group :=
  verbArgument_append v.bytes_mark v.isGraphic_byte v.isLetter_byte v.bytes_text rest

theorem drop_source_append (rest : List UInt8) :
    (Text.bytes v.source ++ rest).drop 5 =
      Text.bytes v.mark ++ v.byte :: (Text.bytes v.text ++ v.byte :: rest) := by
  have hfour : (Text.bytes "verb").length = 4 := by decide +kernel
  rw [bytes_source_append, List.drop_succ_cons, ← hfour, List.drop_left]

theorem lead_eq : v.lead = 5 + v.group.start := Nat.add_assoc _ _ _

theorem stop_eq : 5 + v.group.stop = v.lead + v.text.utf8ByteSize := by
  simp only [lead, group]
  omega

theorem drop_lead_append (rest : List UInt8) :
    (Text.bytes v.source ++ rest).drop v.lead = Text.bytes v.text ++ v.byte :: rest := by
  have hlead : v.lead = 5 + ((Text.bytes v.mark).length + 1) := Nat.add_assoc _ _ _
  rw [hlead, ← List.drop_drop, drop_source_append, ← List.drop_drop, List.drop_left,
    List.drop_one, List.tail_cons]

end Verbatim

end LatexOrigins.Markup
