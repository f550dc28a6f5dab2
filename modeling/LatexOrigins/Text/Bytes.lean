/-!
# Texts as bytes

Every offset of the library counts UTF-8 bytes. This module relates a text to
the list of its bytes and cuts it at byte offsets. A cut is refused where it
would split a character, so `slice?` answers exactly when both ends lie
between characters (`slice?_isSome_iff`), and then its bytes are the bytes in
between (`bytes_of_slice?`).
-/

namespace LatexOrigins.Text

def bytes (s : String) : List UInt8 := s.toByteArray.data.toList

@[simp] theorem length_bytes (s : String) : (bytes s).length = s.utf8ByteSize := rfl

@[simp] theorem bytes_append (s t : String) : bytes (s ++ t) = bytes s ++ bytes t := by
  simp [bytes, String.toByteArray_append, ByteArray.data_append]

theorem bytes_injective {s t : String} (h : bytes s = bytes t) : s = t := by
  apply String.toByteArray_inj.1
  apply ByteArray.ext
  exact Array.toList_inj.1 h

/-- Whether an offset lies between two characters or at either end of the text. -/
def isBoundary (s : String) (offset : Nat) : Bool := String.Pos.Raw.isValid s ⟨offset⟩

theorem isBoundary_iff {s : String} {offset : Nat} :
    isBoundary s offset = true ↔ String.Pos.Raw.IsValid s ⟨offset⟩ := by
  simp [isBoundary]

theorem le_size_of_isBoundary {s : String} {offset : Nat} (h : isBoundary s offset = true) :
    offset ≤ s.utf8ByteSize :=
  (isBoundary_iff.1 h).le_rawEndPos

/-- The part of a text between two byte offsets, unless they are reversed, lie
past its end or split a character. -/
def slice? (s : String) (start stop : Nat) : Option String :=
  if h : isBoundary s start = true ∧ isBoundary s stop = true ∧ start ≤ stop then
    some (s.extract ⟨⟨start⟩, isBoundary_iff.1 h.1⟩ ⟨⟨stop⟩, isBoundary_iff.1 h.2.1⟩)
  else
    none

theorem slice?_isSome_iff {s : String} {start stop : Nat} :
    (slice? s start stop).isSome ↔
      isBoundary s start = true ∧ isBoundary s stop = true ∧ start ≤ stop := by
  unfold slice?
  split <;> simp_all

theorem bytes_of_slice? {s t : String} {start stop : Nat} (h : slice? s start stop = some t) :
    bytes t = ((bytes s).drop start).take (stop - start) := by
  unfold slice? at h
  split at h
  · obtain rfl := Option.some.inj h
    simp [bytes, ByteArray.data_extract, List.extract_eq_take_drop]
  · simp at h

end LatexOrigins.Text
