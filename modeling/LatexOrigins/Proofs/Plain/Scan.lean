import LatexOrigins.Proofs.Plain.Construct

/-!
# The scan

The scan stands at one offset after the other, always between two characters,
and the construct there leaves at most one block. So the blocks of a flat source
are well-formed, and each stops before the next one starts: a step stays behind
the offset that it is made at and in front of the one that it leads to.
-/

namespace LatexOrigins.Plain

open Markup

/-- The offsets that the scan of a flat source comes to. -/
inductive Reached (options : Options) (flat : String) : Nat → Prop where
  | start : Reached options flat 0
  | next {offset : Nat} {b : UInt8} {rest : List UInt8} (h : Reached options flat offset)
      (hdrop : (Text.bytes flat).drop offset = b :: rest) :
      Reached options flat (offset + (front options b rest).width)

variable {options : Options} {flat : String}

theorem Reached.cut {offset : Nat} (h : Reached options flat offset) :
    Cut (Text.bytes flat) offset := by
  induction h with
  | start => exact Cut.zero (Text.encoded_bytes flat)
  | next h hdrop ih =>
      have hencoded := hdrop ▸ ih.encoded
      exact ih.add (hdrop ▸ (front_sound options hencoded).cut)

/-! ## Blocks -/

namespace Block

def start : Block → Nat
  | .copy start _ => start
  | .replace _ start _ => start

def stop : Block → Nat
  | .copy _ stop => stop
  | .replace _ _ stop => stop

def bytes (flat : String) : Block → List UInt8
  | .copy start stop => ((Text.bytes flat).drop start).take (stop - start)
  | .replace text _ _ => Text.bytes text

/-- The flat offset that a byte of a block belongs to. -/
def entry (j : Nat) : Block → Nat
  | .copy start _ => start + j
  | .replace _ start stop => min (start + j) (stop - 1)

def copied : Block → List Nat
  | .copy start stop => List.range' start (stop - start)
  | .replace _ _ _ => []

/-- A block that a construct at an offset of the scan leaves. -/
inductive WellFormed (options : Options) (flat : String) : Block → Prop where
  | copy {offset start stop : Nat} (hreached : Reached options flat offset)
      (hstart : Text.isBoundary flat (offset + start) = true)
      (hstop : Text.isBoundary flat (offset + stop) = true) (hle : start ≤ stop)
      (h : Copyable ((Text.bytes flat).drop offset) start stop) :
      WellFormed options flat (.copy (offset + start) (offset + stop))
  | replace {offset width : Nat} {text : String} (hreached : Reached options flat offset)
      (hstart : Text.isBoundary flat offset = true)
      (hstop : Text.isBoundary flat (offset + width) = true) (hpos : 0 < width)
      (h : text ∈ replacements options) :
      WellFormed options flat (.replace text offset (offset + width))

namespace WellFormed

variable {block : Block}

theorem stop_le (h : block.WellFormed options flat) : block.stop ≤ flat.utf8ByteSize := by
  cases h with
  | copy _ _ hstop => exact Text.le_size_of_isBoundary hstop
  | replace _ _ hstop => exact Text.le_size_of_isBoundary hstop

theorem length_map (h : block.WellFormed options flat) :
    block.map.length = (block.bytes flat).length := by
  have hstop := h.stop_le
  cases h with
  | copy =>
      simp only [Block.stop] at hstop
      simp only [map, bytes, List.length_range', List.length_take, List.length_drop,
        Text.length_bytes]
      omega
  | replace => simp [map, bytes]

theorem getElem?_map (h : block.WellFormed options flat) {j : Nat} (hj : j < block.map.length) :
    block.map[j]? = some (block.entry j) := by
  cases h with
  | copy =>
      simp only [map, List.length_range'] at hj
      simp [map, entry, hj]
  | replace =>
      simp only [map, List.length_map, List.length_range] at hj
      simp [map, entry, hj]

theorem mem_map (h : block.WellFormed options flat) {entry : Nat} (hentry : entry ∈ block.map) :
    block.start ≤ entry ∧ entry < block.stop := by
  cases h with
  | copy _ _ _ hle =>
      simp only [map, List.mem_range'_1] at hentry
      simp only [start, stop]
      omega
  | replace _ _ _ hpos =>
      simp only [map, List.mem_map, List.mem_range] at hentry
      obtain ⟨k, -, rfl⟩ := hentry
      simp only [start, stop]
      omega

theorem map_monotone (h : block.WellFormed options flat) : block.map.Pairwise (· ≤ ·) := by
  cases h with
  | copy => exact List.Pairwise.imp Nat.le_of_lt List.pairwise_lt_range'
  | replace =>
      rw [map, List.pairwise_map]
      refine List.pairwise_lt_range.imp fun {a b} hab => ?_
      omega

theorem exists_text (h : block.WellFormed options flat) :
    ∃ text, block.text flat = .ok text ∧ Text.bytes text = block.bytes flat := by
  cases h with
  | @copy offset start stop _ hstart hstop hle =>
      have hsome : (Text.slice? flat (offset + start) (offset + stop)).isSome = true :=
        Text.slice?_isSome_iff.2 ⟨hstart, hstop, by omega⟩
      obtain ⟨text, htext⟩ := Option.isSome_iff_exists.1 hsome
      exact ⟨text, by simp only [Block.text, htext], Text.bytes_of_slice? htext⟩
  | @replace _ _ text => exact ⟨text, rfl, rfl⟩

end WellFormed

end Block

/-! ## Steps and runs -/

/-- The block that a construct leaves lies between the offset of the construct
and its end. -/
theorem Residue.Sound.blocksAt {offset width : Nat} {residue : Residue}
    (hreached : Reached options flat offset)
    (h : residue.Sound options ((Text.bytes flat).drop offset) width) :
    ∀ block ∈ residue.blocksAt offset, block.WellFormed options flat ∧
      offset ≤ block.start ∧ block.stop ≤ offset + width := by
  intro block hblock
  have hcut := hreached.cut
  cases h with
  | nothing => simp [Residue.blocksAt] at hblock
  | copy hstart hstop hle hwidth hcopyable =>
      obtain rfl := List.mem_singleton.1 hblock
      refine ⟨Block.WellFormed.copy hreached ?_ ?_ hle hcopyable, ?_, ?_⟩
      · exact isBoundary_iff_cut.2 (hcut.add hstart)
      · exact isBoundary_iff_cut.2 (hcut.add hstop)
      · exact Nat.le_add_right _ _
      · exact Nat.add_le_add_left hwidth _
  | replace hpos hstop hwidth htext =>
      obtain rfl := List.mem_singleton.1 hblock
      refine ⟨Block.WellFormed.replace hreached ?_ ?_ hpos htext, ?_, ?_⟩
      · exact isBoundary_iff_cut.2 hcut
      · exact isBoundary_iff_cut.2 (hcut.add hstop)
      · exact Nat.le_refl _
      · exact Nat.add_le_add_left hwidth _

theorem blocksFrom_wellFormed {offset : Nat} {l : List UInt8}
    (hreached : Reached options flat offset) (hl : (Text.bytes flat).drop offset = l) :
    ∀ block ∈ blocksFrom options offset l,
      block.WellFormed options flat ∧ offset ≤ block.start := by
  fun_induction blocksFrom options offset l with
  | case1 => simp
  | case2 offset b rest c ih =>
      have hsound := front_sound options (hl ▸ hreached.cut.encoded)
      have hrest := ih (hreached.next hl) (by rw [← List.drop_drop, hl])
      intro block hblock
      rcases List.mem_append.1 hblock with hblock | hblock
      · have hstep := Residue.Sound.blocksAt hreached (hl ▸ hsound.residue) block hblock
        exact ⟨hstep.1, hstep.2.1⟩
      · have hbehind := hrest block hblock
        exact ⟨hbehind.1, by omega⟩

theorem pairwise_blocksAt (offset : Nat) (residue : Residue) (R : Block → Block → Prop) :
    (residue.blocksAt offset).Pairwise R := by
  cases residue with
  | nothing => exact List.Pairwise.nil
  | copy => exact List.pairwise_singleton R _
  | replace => exact List.pairwise_singleton R _

theorem blocksFrom_disjoint {offset : Nat} {l : List UInt8}
    (hreached : Reached options flat offset) (hl : (Text.bytes flat).drop offset = l) :
    (blocksFrom options offset l).Pairwise fun a b => a.stop ≤ b.start := by
  fun_induction blocksFrom options offset l with
  | case1 => exact List.Pairwise.nil
  | case2 offset b rest c ih =>
      have hsound := front_sound options (hl ▸ hreached.cut.encoded)
      have hnext := hreached.next hl
      have hdrop : (Text.bytes flat).drop (offset + c.width) = (b :: rest).drop c.width := by
        rw [← List.drop_drop, hl]
      refine List.pairwise_append.2 ⟨pairwise_blocksAt _ _ _, ih hnext hdrop, ?_⟩
      intro block hblock other hother
      have hstep := Residue.Sound.blocksAt hreached (hl ▸ hsound.residue) block hblock
      have hbehind := blocksFrom_wellFormed hnext hdrop other hother
      exact Nat.le_trans hstep.2.2 hbehind.2

theorem blocks_wellFormed (options : Options) (flat : String) :
    ∀ block ∈ blocks options flat, block.WellFormed options flat := by
  intro block hblock
  exact (blocksFrom_wellFormed Reached.start rfl block hblock).1

theorem blocks_disjoint (options : Options) (flat : String) :
    (blocks options flat).Pairwise fun a b => a.stop ≤ b.start :=
  blocksFrom_disjoint Reached.start rfl

end LatexOrigins.Plain
