import LatexOrigins.Proofs.Plain.Unmarked
import Mathlib.Data.List.Basic

/-!
# What stands behind a construct

A scan reads nothing of what stands before it, so the blocks of a text that stands behind
another are those of the text alone, moved as far as the other is long. A construct behind
bytes without markup thus falls into three parts: the bytes, which are copied, what is left
of the construct, and the text behind it as if it stood alone.
-/

namespace LatexOrigins.Plain

open Markup

variable {options : Options}

/-! ## Moved blocks -/

/-- A block of a text when more bytes stand in front of the text. -/
def Block.moved (width : Nat) : Block → Block
  | .copy start stop => .copy (width + start) (width + stop)
  | .replace text start stop => .replace text (width + start) (width + stop)

theorem Residue.blocksAt_add (width offset : Nat) (residue : Residue) :
    residue.blocksAt (width + offset) = (residue.blocksAt offset).map (Block.moved width) := by
  cases residue <;> simp only [blocksAt, List.map_nil, List.map_cons, Block.moved, Nat.add_assoc]

-- The offset is handed on and never looked at: the construct in front is that of the bytes ahead.
theorem blocksFrom_add (width offset : Nat) (l : List UInt8) :
    blocksFrom options (width + offset) l =
      (blocksFrom options offset l).map (Block.moved width) := by
  fun_induction blocksFrom options offset l with
  | case1 => rw [blocksFrom, List.map_nil]
  | case2 offset b rest c ih =>
      rw [blocksFrom, List.map_append, ← ih, ← Residue.blocksAt_add, ← Nat.add_assoc]

theorem Block.WellFormed.map_moved {behind : String} {block : Block}
    (h : block.WellFormed options behind) (width : Nat) :
    (block.moved width).map = block.map.map (width + ·) := by
  cases h with
  | copy =>
      rw [moved, map, map, List.map_add_range', Nat.add_sub_add_left]
  | @replace offset _ _ _ _ _ hpos =>
      rw [moved, map, map, List.map_map]
      refine List.map_congr_left fun k _ => ?_
      rw [Function.comp_apply]
      omega

theorem Block.bytes_moved {flat behind : String} {width : Nat}
    (h : (Text.bytes flat).drop width = Text.bytes behind) (block : Block) :
    (block.moved width).bytes flat = block.bytes behind := by
  cases block with
  | copy start stop =>
      rw [moved, bytes, bytes, Nat.add_sub_add_left, ← List.drop_drop, h]
  | replace => rfl

/-- The part of a text behind a number of bytes has the blocks that it has alone, with
entries that are larger by that number. -/
theorem blocks_behind (options : Options) {flat behind : String} {width : Nat}
    (h : (Text.bytes flat).drop width = Text.bytes behind) :
    (blocksFrom options width (Text.bytes behind)).flatMap (Block.bytes flat) =
        (blocks options behind).flatMap (Block.bytes behind) ∧
      (blocksFrom options width (Text.bytes behind)).flatMap Block.map =
        ((blocks options behind).flatMap Block.map).map (width + ·) := by
  have hmoved : blocksFrom options width (Text.bytes behind) =
      (blocks options behind).map (Block.moved width) := blocksFrom_add width 0 _
  rw [hmoved, List.flatMap_map, List.flatMap_map, List.map_flatMap]
  constructor
  · exact List.flatMap_congr fun block _ => Block.bytes_moved h block
  · exact List.flatMap_congr fun block hblock =>
      (blocks_wellFormed options behind block hblock).map_moved width

/-! ## A construct between two texts -/

/-- Markup starts at the front, and what it makes is a certain construct. -/
def Opens (options : Options) (l : List UInt8) (c : Construct) : Prop :=
  ∃ b rest, l = b :: rest ∧ isSpecial b = true ∧ construct options b rest l = c

theorem Opens.exists_front {l : List UInt8} {c : Construct} (h : Opens options l c) :
    ∃ b rest, l = b :: rest ∧ isSpecial b = true ∧ front options b rest = c := by
  obtain ⟨b, rest, rfl, hspecial, hc⟩ := h
  refine ⟨b, rest, rfl, hspecial, ?_⟩
  unfold front
  simp only
  rw [if_pos hspecial, hc]

theorem Opens.width_pos {l : List UInt8} {c : Construct} (h : Opens options l c) :
    0 < c.width := by
  obtain ⟨b, rest, -, -, rfl⟩ := h.exists_front
  exact front_width_pos options b rest

theorem Opens.head?_special {l : List UInt8} {c : Construct} (h : Opens options l c) :
    ∀ b ∈ l.head?, isSpecial b = true := by
  obtain ⟨b, rest, rfl, hspecial, -⟩ := h
  intro b' hb'
  obtain rfl := Option.some.inj hb'
  exact hspecial

theorem Opens.blocksFrom {l : List UInt8} {c : Construct} (h : Opens options l c) (offset : Nat) :
    blocksFrom options offset l =
      c.residue.blocksAt offset ++ blocksFrom options (offset + c.width) (l.drop c.width) := by
  obtain ⟨b, rest, rfl, -, hfront⟩ := h.exists_front
  rw [Plain.blocksFrom, hfront]

theorem opens_word (options : Options) {word rest : List UInt8} (hsome : word ≠ [])
    (hletters : ∀ b ∈ word, isLetter b = true) (hstop : ∀ b ∈ rest.head?, ¬ isLetter b = true) :
    Opens options (backslash :: (word ++ rest))
      (controlWord options word (1 + word.length) (backslash :: (word ++ rest))) := by
  refine ⟨backslash, word ++ rest, rfl, rfl, ?_⟩
  unfold construct
  simp only [if_true, take_wordWidth hletters hstop]
  rw [if_neg hsome]

/-- A construct behind bytes without markup leaves its block between these bytes and the
text behind it, which is stripped as if it stood alone. -/
theorem Unmarked.strip_append {before construct behind : String} {residue : Residue}
    (hbefore : Unmarked before)
    (hopens : Opens options (Text.bytes (construct ++ behind))
      ⟨residue, construct.utf8ByteSize⟩) :
    ∃ text plain map, strip options behind = .ok (plain, map) ∧
      strip options (before ++ construct ++ behind) = .ok (text,
        (List.range before.utf8ByteSize ++
          (residue.blocksAt before.utf8ByteSize).flatMap Block.map ++
          map.toList.map (before.utf8ByteSize + construct.utf8ByteSize + ·)).toArray) ∧
      Text.bytes text = Text.bytes before ++
        (residue.blocksAt before.utf8ByteSize).flatMap
          (Block.bytes (before ++ construct ++ behind)) ++ Text.bytes plain := by
  have hbytes : Text.bytes (before ++ construct ++ behind) =
      Text.bytes before ++ Text.bytes (construct ++ behind) := by
    rw [Text.bytes_append, Text.bytes_append, Text.bytes_append, List.append_assoc]
  have hbehind : (Text.bytes (before ++ construct ++ behind)).drop
      (before.utf8ByteSize + construct.utf8ByteSize) = Text.bytes behind := by
    rw [Text.bytes_append, ← String.utf8ByteSize_append, ← Text.length_bytes, List.drop_left]
  have hrest : (Text.bytes (construct ++ behind)).drop construct.utf8ByteSize =
      Text.bytes behind := by
    rw [Text.bytes_append, ← Text.length_bytes, List.drop_left]
  have hblocks : Plain.blocks options (before ++ construct ++ behind) =
      plainBlocks 0 (Text.bytes before) ++ (residue.blocksAt before.utf8ByteSize ++
        Plain.blocksFrom options (before.utf8ByteSize + construct.utf8ByteSize)
          (Text.bytes behind)) := by
    rw [Plain.blocks, hbytes, blocksFrom_plain hbefore hopens.head?_special, Text.length_bytes,
      Nat.zero_add, hopens.blocksFrom, hrest]
  obtain ⟨plain, hplain, hplainbytes⟩ := exists_strip options behind
  obtain ⟨text, htext, htextbytes⟩ := exists_strip options (before ++ construct ++ behind)
  obtain ⟨hsame, hmap⟩ := blocks_behind options hbehind
  refine ⟨text, plain, _, hplain, ?_, ?_⟩
  · rw [htext, hblocks, List.flatMap_append, List.flatMap_append, hmap, flatMap_map_plainBlocks,
      List.range_eq_range', Text.length_bytes, List.append_assoc]
  · rw [htextbytes, hblocks, List.flatMap_append, List.flatMap_append, hsame, hplainbytes,
      flatMap_bytes_plainBlocks ?_, List.append_assoc]
    rw [List.drop_zero, hbytes]
    exact List.prefix_append _ _

end LatexOrigins.Plain
