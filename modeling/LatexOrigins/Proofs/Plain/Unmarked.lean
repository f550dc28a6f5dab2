import LatexOrigins.Proofs.Markup.Span
import LatexOrigins.Proofs.Plain.Stripped

/-!
# Texts without markup

Bytes of which none is special are a single stretch of plain text, up to where markup begins
or the text ends. Stripping copies it as a whole, so that each byte stems from itself.
-/

namespace LatexOrigins.Plain

open Markup

/-- No byte of a flat source begins markup. -/
def Unmarked (flat : String) : Prop := ∀ b ∈ Text.bytes flat, isSpecial b = false

instance (flat : String) : Decidable (Unmarked flat) :=
  inferInstanceAs (Decidable (∀ b ∈ Text.bytes flat, isSpecial b = false))

variable {options : Options} {flat : String}

/-- The block for bytes that begin no markup; if there are none, there is no block. -/
def plainBlocks (offset : Nat) (l : List UInt8) : List Block :=
  if l = [] then [] else [.copy offset (offset + l.length)]

theorem flatMap_map_plainBlocks (offset : Nat) (l : List UInt8) :
    (plainBlocks offset l).flatMap Block.map = List.range' offset l.length := by
  unfold plainBlocks
  split
  · next hnil => rw [hnil, List.flatMap_nil, List.length_nil, List.range'_zero]
  · rw [List.flatMap_singleton, Block.map, Nat.add_sub_cancel_left]

theorem flatMap_bytes_plainBlocks {offset : Nat} {l : List UInt8}
    (h : l <+: (Text.bytes flat).drop offset) :
    (plainBlocks offset l).flatMap (Block.bytes flat) = l := by
  unfold plainBlocks
  split
  · next hnil => rw [hnil, List.flatMap_nil]
  · rw [List.flatMap_singleton, Block.bytes, Nat.add_sub_cancel_left]
    exact (List.prefix_iff_eq_take.1 h).symm

theorem front_plain {b : UInt8} {l rest : List UInt8} (hplain : ∀ c ∈ b :: l, isSpecial c = false)
    (hstop : ∀ c ∈ rest.head?, isSpecial c = true) :
    front options b (l ++ rest) = ⟨.copy 0 (b :: l).length, (b :: l).length⟩ := by
  have hb : ¬ isSpecial b = true := by
    rw [hplain b List.mem_cons_self]
    exact Bool.false_ne_true
  have hspan : spanLength (fun c => !isSpecial c) (b :: (l ++ rest)) = (b :: l).length := by
    rw [← List.cons_append]
    refine spanLength_append_of_stop (fun c hc => ?_) fun c hc => ?_
    · rw [hplain c hc, Bool.not_false]
    · rw [hstop c hc, Bool.not_true]
      exact Bool.false_ne_true
  unfold front
  simp only
  rw [if_neg hb, hspan]

theorem blocksFrom_plain {l rest : List UInt8} (hplain : ∀ c ∈ l, isSpecial c = false)
    (hstop : ∀ c ∈ rest.head?, isSpecial c = true) (offset : Nat) :
    blocksFrom options offset (l ++ rest) =
      plainBlocks offset l ++ blocksFrom options (offset + l.length) rest := by
  cases l with
  | nil => rfl
  | cons b l =>
      rw [List.cons_append, blocksFrom, front_plain hplain hstop, ← List.cons_append,
        List.drop_left, plainBlocks, if_neg (List.cons_ne_nil b l)]
      rfl

theorem Unmarked.blocks (h : Unmarked flat) (options : Options) :
    (blocks options flat).flatMap (Block.bytes flat) = Text.bytes flat ∧
      (blocks options flat).flatMap Block.map = List.range flat.utf8ByteSize := by
  have hblocks : Plain.blocks options flat = plainBlocks 0 (Text.bytes flat) := by
    have hwhole : blocksFrom options 0 (Text.bytes flat ++ []) = plainBlocks 0 (Text.bytes flat) ++
        blocksFrom options (0 + (Text.bytes flat).length) [] := blocksFrom_plain h (by simp) 0
    rwa [List.append_nil, blocksFrom, List.append_nil] at hwhole
  rw [hblocks, flatMap_map_plainBlocks, List.range_eq_range', Text.length_bytes]
  exact ⟨flatMap_bytes_plainBlocks List.prefix_rfl, rfl⟩

/-- A text without markup is stripped of nothing. -/
theorem strip_unmarked (options : Options) (h : Unmarked flat) :
    strip options flat = .ok (flat, (List.range flat.utf8ByteSize).toArray) := by
  obtain ⟨text, hstrip, hbytes⟩ := exists_strip options flat
  obtain ⟨hsame, hmap⟩ := h.blocks options
  obtain rfl : text = flat := Text.bytes_injective (hbytes.trans hsame)
  rw [hstrip, hmap]

end LatexOrigins.Plain
