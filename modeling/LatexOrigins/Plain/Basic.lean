import LatexOrigins.LoadError
import LatexOrigins.Text.Lined

/-!
# Plain texts

A plain text comes with a map that gives for each of its bytes the offset in
the flat source that the byte stems from. The map covers the text exactly and
never decreases; both are checked where a plain text is made and carried by its
type.
-/

namespace LatexOrigins

structure Plain where
  lined : LinedText
  map : Array Nat
  size_map : map.size = lined.size
  monotone : map.toList.Pairwise (· ≤ ·)

namespace Plain

abbrev Stripper := String → Except LoadError (String × Array Nat)

/-- The first offset whose entry is below the one before it; the list starts
behind the entry `before`, which belongs to the offset `offset`. -/
def firstDecrease (offset before : Nat) : List Nat → Option Nat
  | [] => none
  | entry :: rest =>
    if entry < before then some (offset + 1) else firstDecrease (offset + 1) entry rest

def decrease? : List Nat → Option Nat
  | [] => none
  | entry :: rest => firstDecrease 0 entry rest

theorem pairwise_of_firstDecrease {offset before : Nat} {l : List Nat}
    (h : firstDecrease offset before l = none) : (before :: l).Pairwise (· ≤ ·) := by
  induction l generalizing offset before with
  | nil => simp
  | cons entry rest ih =>
    unfold firstDecrease at h
    split at h
    · simp at h
    · next hle =>
      have hrest := ih h
      refine List.pairwise_cons.2 ⟨fun x hx => ?_, hrest⟩
      rcases List.mem_cons.1 hx with rfl | hx
      · omega
      · have := (List.pairwise_cons.1 hrest).1 x hx
        omega

theorem pairwise_of_decrease? {l : List Nat} (h : decrease? l = none) :
    l.Pairwise (· ≤ ·) := by
  cases l with
  | nil => simp
  | cons entry rest => exact pairwise_of_firstDecrease h

def ofMap (text : String) (map : Array Nat) : Except LoadError Plain :=
  let lined := LinedText.ofString text
  if hsize : map.size = lined.size then
    match hdecrease : decrease? map.toList with
    | some offset => .error (.mapDecreases offset)
    | none => .ok ⟨lined, map, hsize, pairwise_of_decrease? hdecrease⟩
  else
    .error (.mapLength map.size lined.size)

/-- Strip a flat source and check that the result fits it: no entry of the map
points past its end. -/
def ofSource (flat : String) (strip : Stripper) : Except LoadError Plain := do
  let (text, map) ← strip flat
  let plain ← ofMap text map
  match plain.map.findIdx? (flat.utf8ByteSize ≤ ·) with
  | some offset => .error (.mapOutOfBounds offset (plain.map.getD offset 0) flat.utf8ByteSize)
  | none => .ok plain

/-- A map whose entries point just past the flat bytes, in entries that point at
them. -/
def fromOneBased (map : Array Nat) : Array Nat := map.map (· - 1)

def text (p : Plain) : String := p.lined.text

def sourceOffset? (p : Plain) (offset : Nat) : Option Nat := p.map[offset]?

def sourceEnd? (p : Plain) : Nat → Option Nat
  | 0 => some 0
  | last + 1 => (p.sourceOffset? last).map (· + 1)

end Plain

end LatexOrigins
