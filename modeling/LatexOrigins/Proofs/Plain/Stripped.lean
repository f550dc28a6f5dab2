import LatexOrigins.Proofs.Plain.Scan
import LatexOrigins.Proofs.Results

/-!
# Stripped texts

Stripping never fails, and its text and its map are those of the blocks, one
after the other. Each byte of the text lies in one block, which says where the
byte comes from. Because the blocks keep their order the map never decreases, and
a flat byte is copied once at most.
-/

namespace LatexOrigins.Plain

open Markup

/-- In blocks put one behind the other, the byte at an offset is the byte with some
index of one of them. -/
inductive LiesIn : List Block → Nat → Block → Nat → Prop where
  | front {block : Block} {blocks : List Block} {j : Nat} (h : j < block.map.length) :
      LiesIn (block :: blocks) j block j
  | behind {other block : Block} {blocks : List Block} {k j : Nat} (h : LiesIn blocks k block j) :
      LiesIn (other :: blocks) (other.map.length + k) block j

namespace LiesIn

variable {blocks : List Block} {block : Block} {k j : Nat}

theorem mem (h : LiesIn blocks k block j) : block ∈ blocks := by
  induction h with
  | front => exact List.mem_cons_self
  | behind _ ih => exact List.mem_cons_of_mem _ ih

theorem lt_length (h : LiesIn blocks k block j) : j < block.map.length := by
  induction h with
  | front h => exact h
  | behind _ ih => exact ih

theorem getElem?_flatMap {α : Type} {f : Block → List α} (h : LiesIn blocks k block j)
    (hlength : ∀ block ∈ blocks, block.map.length = (f block).length) :
    (blocks.flatMap f)[k]? = (f block)[j]? := by
  induction h with
  | @front block _ j h =>
      have hfront := hlength block List.mem_cons_self
      rw [List.flatMap_cons, List.getElem?_append_left (by omega)]
  | @behind other _ _ k j h ih =>
      have hfront := hlength other List.mem_cons_self
      rw [List.flatMap_cons, List.getElem?_append_right (by omega), hfront, Nat.add_sub_cancel_left]
      exact ih fun block hblock => hlength block (List.mem_cons_of_mem _ hblock)

theorem exists_of_lt (h : k < (blocks.flatMap Block.map).length) :
    ∃ block j, LiesIn blocks k block j := by
  induction blocks generalizing k with
  | nil => simp at h
  | cons other rest ih =>
      by_cases hk : k < other.map.length
      · exact ⟨other, k, front hk⟩
      · rw [List.flatMap_cons, List.length_append] at h
        obtain ⟨block, j, hin⟩ := ih (k := k - other.map.length) (by omega)
        have hbehind : LiesIn (other :: rest) (other.map.length + (k - other.map.length)) block j :=
          hin.behind
        rw [Nat.add_sub_of_le (Nat.le_of_not_lt hk)] at hbehind
        exact ⟨block, j, hbehind⟩

end LiesIn

variable {options : Options} {flat : String}

/-! ## Order -/

theorem pairwise_flatMap_map {blocks : List Block}
    (hwf : ∀ block ∈ blocks, block.WellFormed options flat)
    (hdisjoint : blocks.Pairwise fun a b => a.stop ≤ b.start) :
    (blocks.flatMap Block.map).Pairwise (· ≤ ·) := by
  rw [List.pairwise_flatMap]
  refine ⟨fun block hblock => (hwf block hblock).map_monotone, ?_⟩
  refine hdisjoint.imp_of_mem fun {a b} ha hb hab x hx y hy => ?_
  have hlt := ((hwf a ha).mem_map hx).2
  have hle := ((hwf b hb).mem_map hy).1
  omega

theorem Block.mem_copied {block : Block} {offset : Nat} (h : offset ∈ block.copied) :
    block.start ≤ offset ∧ offset < block.stop := by
  cases block with
  | copy start stop =>
      simp only [Block.copied, List.mem_range'_1] at h
      simp only [Block.start, Block.stop]
      omega
  | replace => simp [Block.copied] at h

theorem pairwise_flatMap_copied {blocks : List Block}
    (hdisjoint : blocks.Pairwise fun a b => a.stop ≤ b.start) :
    (blocks.flatMap Block.copied).Pairwise (· < ·) := by
  rw [List.pairwise_flatMap]
  constructor
  · intro block _
    cases block with
    | copy => exact List.pairwise_lt_range'
    | replace => exact List.Pairwise.nil
  · refine hdisjoint.imp fun {a b} hab x hx y hy => ?_
    have hlt := (Block.mem_copied hx).2
    have hle := (Block.mem_copied hy).1
    omega

/-! ## The text -/

theorem exists_texts {blocks : List Block}
    (hwf : ∀ block ∈ blocks, block.WellFormed options flat) :
    ∃ texts, blocks.mapM (Block.text flat) = .ok texts ∧
      texts.flatMap Text.bytes = blocks.flatMap (Block.bytes flat) := by
  induction blocks with
  | nil => exact ⟨[], rfl, rfl⟩
  | cons block rest ih =>
      obtain ⟨texts, htexts, hbytes⟩ :=
        ih fun other hother => hwf other (List.mem_cons_of_mem _ hother)
      obtain ⟨text, htext, hfront⟩ := (hwf block List.mem_cons_self).exists_text
      refine ⟨text :: texts, ?_, ?_⟩
      · rw [List.mapM_cons, htext, Results.ok_bind, htexts]
        rfl
      · rw [List.flatMap_cons, List.flatMap_cons, hfront, hbytes]

theorem exists_strip (options : Options) (flat : String) : ∃ text,
    strip options flat = .ok (text, ((blocks options flat).flatMap Block.map).toArray) ∧
      Text.bytes text = (blocks options flat).flatMap (Block.bytes flat) := by
  obtain ⟨texts, htexts, hbytes⟩ := exists_texts (blocks_wellFormed options flat)
  refine ⟨String.join texts, ?_, ?_⟩
  · rw [strip]
    simp only [htexts, Results.ok_bind]
    rfl
  · rw [Text.bytes_join, hbytes]

/-! ## Special bytes -/

/-- How a special byte comes into a plain text: behind a backslash, in the
argument of `\verb`, or as part of what the options put in place of markup. -/
inductive Block.LetsThrough (options : Options) (flat : String) : Block → Prop where
  | escape {offset : Nat} {b : UInt8} (hreached : Reached options flat offset)
      (hback : (Text.bytes flat)[offset]? = some backslash)
      (hsymbol : (Text.bytes flat)[offset + 1]? = some b) (hb : b ∈ escapable) :
      LetsThrough options flat (.copy (offset + 1) (offset + 2))
  | verb {offset : Nat} {g : Group} (hreached : Reached options flat offset)
      (hword : Text.bytes "\\verb" <+: (Text.bytes flat).drop offset)
      (hg : verbArgument ((Text.bytes flat).drop (offset + 5)) = some g) :
      LetsThrough options flat (.copy (offset + (5 + g.start)) (offset + (5 + g.stop)))
  | placeholder {text : String} {start stop : Nat} (h : text ∈ placeholders options) :
      LetsThrough options flat (.replace text start stop)

theorem Block.WellFormed.letsThrough {block : Block} {b : UInt8}
    (h : block.WellFormed options flat) (hb : b ∈ block.bytes flat)
    (hspecial : isSpecial b = true) : block.LetsThrough options flat := by
  cases h with
  | @copy offset start stop hreached _ _ _ hcopyable =>
      cases hcopyable with
      | plain hplain =>
          rw [Block.bytes, Nat.add_zero, Nat.add_sub_cancel_left] at hb
          rw [hplain b hb] at hspecial
          simp at hspecial
      | escape hback hsymbol hmem =>
          rw [List.getElem?_drop] at hback hsymbol
          exact LetsThrough.escape hreached hback hsymbol hmem
      | verb hword hg =>
          rw [List.drop_drop] at hg
          exact LetsThrough.verb hreached hword hg
  | replace _ _ _ _ htext =>
      apply LetsThrough.placeholder
      rcases List.mem_append.1 htext with hfixed | hplaceholder
      · have hplain : ∀ text ∈ fixedTexts, ∀ b ∈ Text.bytes text, isSpecial b = false := by
          decide +kernel
        rw [hplain _ hfixed b hb] at hspecial
        simp at hspecial
      · exact hplaceholder

/-! ## Stripping -/

/-- What a text and a map have to do with the flat source that they were stripped
from. -/
structure Stripped (options : Options) (flat text : String) (map : Array Nat) : Prop where
  text_eq : Text.bytes text = (blocks options flat).flatMap (Block.bytes flat)
  map_eq : map.toList = (blocks options flat).flatMap Block.map
  /-- Each byte lies in a block, which says what the byte is and what its entry is. -/
  covers : ∀ k < text.utf8ByteSize, ∃ block j, LiesIn (blocks options flat) k block j ∧
    map[k]? = some (block.entry j) ∧ (Text.bytes text)[k]? = (block.bytes flat)[j]?
  wellFormed : ∀ block ∈ blocks options flat, block.WellFormed options flat
  disjoint : (blocks options flat).Pairwise fun a b => a.stop ≤ b.start
  monotone : map.toList.Pairwise (· ≤ ·)
  lt_size : ∀ entry ∈ map, entry < flat.utf8ByteSize
  copied_once : ((blocks options flat).flatMap Block.copied).Pairwise (· < ·)
  special : ∀ k b, (Text.bytes text)[k]? = some b → isSpecial b = true →
    ∃ block j, LiesIn (blocks options flat) k block j ∧ block.LetsThrough options flat
  /-- The scan stands between characters, and so do the ends of the words and the
  groups that it reads. -/
  reached : ∀ offset, Reached options flat offset → Text.isBoundary flat offset = true
  words : ∀ offset, (Text.bytes flat)[offset]? = some backslash →
    Text.isBoundary flat (offset + 1) = true ∧ Text.isBoundary flat
      (offset + 1 + wordWidth ((Text.bytes flat).drop (offset + 1))) = true
  groups : ∀ offset g, Text.isBoundary flat offset = true →
    braced ((Text.bytes flat).drop offset) = some g →
      Text.isBoundary flat (offset + g.start) = true ∧
      Text.isBoundary flat (offset + g.stop) = true ∧
      Text.isBoundary flat (offset + g.width) = true

theorem isBoundary_wordWidth {offset : Nat}
    (hback : (Text.bytes flat)[offset]? = some backslash) :
    Text.isBoundary flat (offset + 1) = true ∧ Text.isBoundary flat
      (offset + 1 + wordWidth ((Text.bytes flat).drop (offset + 1))) = true := by
  have hbehind := (Cut.of_ascii (Text.encoded_bytes flat) hback (by decide)).2
  exact ⟨isBoundary_iff_cut.2 hbehind,
    isBoundary_iff_cut.2 (hbehind.add (cut_wordWidth hbehind.encoded))⟩

theorem isBoundary_braced {offset : Nat} {g : Group} (h : Text.isBoundary flat offset = true)
    (hg : braced ((Text.bytes flat).drop offset) = some g) :
    Text.isBoundary flat (offset + g.start) = true ∧
      Text.isBoundary flat (offset + g.stop) = true ∧
      Text.isBoundary flat (offset + g.width) = true := by
  have hcut := isBoundary_iff_cut.1 h
  have hcuts := braced_cuts hcut.encoded hg
  exact ⟨isBoundary_iff_cut.2 (hcut.add hcuts.start), isBoundary_iff_cut.2 (hcut.add hcuts.stop),
    isBoundary_iff_cut.2 (hcut.add hcuts.width)⟩

theorem LiesIn.spec {block : Block} {k j : Nat} (h : LiesIn (blocks options flat) k block j) :
    ((blocks options flat).flatMap Block.map)[k]? = some (block.entry j) ∧
      ((blocks options flat).flatMap (Block.bytes flat))[k]? = (block.bytes flat)[j]? := by
  have hwf := blocks_wellFormed options flat
  constructor
  · rw [h.getElem?_flatMap fun _ _ => rfl, (hwf block h.mem).getElem?_map h.lt_length]
  · exact h.getElem?_flatMap fun other hother => (hwf other hother).length_map

theorem copied_of_liesIn {text : String} {map : Array Nat} {start stop k j : Nat}
    (h : strip options flat = .ok (text, map))
    (hin : LiesIn (blocks options flat) k (.copy start stop) j) :
    map[k]? = some (start + j) ∧ start + j < flat.utf8ByteSize ∧
      (Text.bytes text)[k]? = (Text.bytes flat)[start + j]? := by
  obtain ⟨made, hmade, hbytes⟩ := exists_strip options flat
  obtain ⟨rfl, rfl⟩ := Prod.mk.inj (Except.ok.inj (h.symm.trans hmade))
  obtain ⟨hentry, hbyte⟩ := hin.spec
  have hj := hin.lt_length
  have hstop := (blocks_wellFormed options flat _ hin.mem).stop_le
  simp only [Block.map, List.length_range'] at hj
  simp only [Block.stop] at hstop
  refine ⟨?_, by omega, ?_⟩
  · rw [List.getElem?_toArray, hentry, Block.entry]
  · rw [hbytes, hbyte, Block.bytes, List.getElem?_take_of_lt hj, List.getElem?_drop]

theorem length_flatMap_map (options : Options) (flat : String) :
    ((blocks options flat).flatMap Block.map).length =
      ((blocks options flat).flatMap (Block.bytes flat)).length := by
  have hlength : (blocks options flat).map (fun block => (block.bytes flat).length) =
      (blocks options flat).map fun block => block.map.length := by
    apply List.map_congr_left
    intro block hblock
    rw [(blocks_wellFormed options flat block hblock).length_map]
  rw [List.length_flatMap, List.length_flatMap, hlength]

theorem exists_liesIn {k : Nat}
    (hk : k < ((blocks options flat).flatMap (Block.bytes flat)).length) :
    ∃ block j, LiesIn (blocks options flat) k block j := by
  rw [← length_flatMap_map] at hk
  exact LiesIn.exists_of_lt hk

theorem lt_size_of_mem_map {entry : Nat} (h : entry ∈ (blocks options flat).flatMap Block.map) :
    entry < flat.utf8ByteSize := by
  obtain ⟨block, hblock, hmem⟩ := List.mem_flatMap.1 h
  have hwf := blocks_wellFormed options flat block hblock
  exact Nat.lt_of_lt_of_le (hwf.mem_map hmem).2 hwf.stop_le

theorem exists_letsThrough {k : Nat} {b : UInt8}
    (h : ((blocks options flat).flatMap (Block.bytes flat))[k]? = some b)
    (hspecial : isSpecial b = true) :
    ∃ block j, LiesIn (blocks options flat) k block j ∧ block.LetsThrough options flat := by
  obtain ⟨block, j, hin⟩ := exists_liesIn (List.getElem?_eq_some_iff.1 h).1
  have hwf := blocks_wellFormed options flat block hin.mem
  rw [hin.spec.2] at h
  exact ⟨block, j, hin, hwf.letsThrough (List.mem_of_getElem? h) hspecial⟩

/-- Stripping succeeds on every flat source, and its text and map are the blocks of
the source: copies and known texts in place of stretches that follow each other,
cut between characters. -/
theorem exists_stripped (options : Options) (flat : String) :
    ∃ text map, strip options flat = .ok (text, map) ∧ Stripped options flat text map := by
  obtain ⟨text, hstrip, hbytes⟩ := exists_strip options flat
  have hwf := blocks_wellFormed options flat
  have hdisjoint := blocks_disjoint options flat
  refine ⟨text, _, hstrip, ?_⟩
  refine {
    text_eq := hbytes
    map_eq := rfl
    covers := ?_
    wellFormed := hwf
    disjoint := hdisjoint
    monotone := pairwise_flatMap_map hwf hdisjoint
    lt_size := ?_
    copied_once := pairwise_flatMap_copied hdisjoint
    special := ?_
    reached := fun offset h => isBoundary_iff_cut.2 h.cut
    words := fun offset hback => isBoundary_wordWidth hback
    groups := fun offset g h hg => isBoundary_braced h hg }
  · intro k hk
    rw [← Text.length_bytes, hbytes] at hk
    obtain ⟨block, j, hin⟩ := exists_liesIn hk
    rw [List.getElem?_toArray, hbytes]
    exact ⟨block, j, hin, hin.spec⟩
  · intro entry hentry
    exact lt_size_of_mem_map (List.mem_toArray.1 hentry)
  · intro k b hb hspecial
    rw [hbytes] at hb
    exact exists_letsThrough hb hspecial

/-- The argument of `\verb` is copied, a tie becomes a space and a formula its
placeholder. -/
example : (strip .standard "\\verb|%|~$xy$").toOption = some ("% X", #[6, 8, 9]) := by
  decide +kernel

end LatexOrigins.Plain
