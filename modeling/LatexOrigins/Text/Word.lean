import LatexOrigins.Fault

/-!
# Words

Offsets, lines and columns are counted in words. What becomes of a sum that no word
holds is up to how the program was built: it stops there, or the sum wraps and goes on
with what is left of it in a word.
-/

namespace LatexOrigins

def wordLimit : Nat := UInt64.size

inductive Overflow where
  | stops
  | wraps
  deriving DecidableEq, Repr

namespace Overflow

def add (overflow : Overflow) (a b : Nat) : Except Fault Nat :=
  if a + b < wordLimit then .ok (a + b)
  else
    match overflow with
    | .stops => .error .overflow
    | .wraps => .ok ((a + b) % wordLimit)

variable {overflow : Overflow} {a b : Nat}

theorem add_of_lt (h : a + b < wordLimit) : overflow.add a b = .ok (a + b) := if_pos h

theorem stops_add (h : wordLimit ≤ a + b) : stops.add a b = .error .overflow :=
  if_neg (Nat.not_lt.2 h)

/-- A sum that wraps is not the sum. -/
theorem add_eq_ok_iff : overflow.add a b = .ok (a + b) ↔ a + b < wordLimit := by
  refine ⟨fun h => ?_, add_of_lt⟩
  unfold add at h
  split at h
  · assumption
  · cases overflow with
    | stops => cases h
    | wraps =>
        rw [← Except.ok.inj h]
        exact Nat.mod_lt _ (by decide)

/-- A sum that wraps is below its first part, if the second one is a word. -/
theorem exists_wraps_add (hb : b < wordLimit) (h : wordLimit ≤ a + b) :
    ∃ n, wraps.add a b = .ok n ∧ n < a := by
  refine ⟨(a + b) % wordLimit, if_neg (Nat.not_lt.2 h), ?_⟩
  have hle : (a + b - wordLimit) % wordLimit ≤ a + b - wordLimit := Nat.mod_le _ _
  rw [Nat.mod_eq_sub_mod h]
  omega

end Overflow

/-- The position one byte further on the same line, as far as words count. -/
def Position.step (p : Position) (overflow : Overflow) : Except Fault Position := do
  let offset ← overflow.add p.offset 1
  let column ← overflow.add p.column 1
  pure ⟨offset, p.line, column⟩

end LatexOrigins
