import LatexOrigins.Json.Printer
import Mathlib.Data.List.Basic

/-!
# The compact layout is one line

A value in the compact layout holds no line break, whatever its strings hold: inside
quotes a break is escaped, and nothing else that is written holds one.
-/

namespace LatexOrigins

/-- A text without a line break. -/
def OneLine (s : String) : Prop := '\n' ∉ s.toList

instance (s : String) : Decidable (OneLine s) := inferInstanceAs (Decidable (¬ _))

namespace OneLine

theorem append {s t : String} (hs : OneLine s) (ht : OneLine t) : OneLine (s ++ t) := by
  rw [OneLine, String.toList_append, List.mem_append]
  exact not_or.2 ⟨hs, ht⟩

theorem between {left right s : String} (hleft : OneLine left) (hs : OneLine s)
    (hright : OneLine right) : OneLine (left ++ s ++ right) :=
  (hleft.append hs).append hright

theorem intercalate {separator : String} {parts : List String} (hseparator : OneLine separator)
    (hparts : ∀ part ∈ parts, OneLine part) : OneLine (separator.intercalate parts) := by
  rw [OneLine, String.toList_intercalate, List.intercalate]
  induction parts with
  | nil => exact List.not_mem_nil
  | cons part rest ih =>
      obtain ⟨hpart, hrest⟩ := List.forall_mem_cons.1 hparts
      cases rest with
      | nil =>
          rw [List.map_cons, List.map_nil, List.intersperse_singleton, List.flatten_singleton]
          exact hpart
      | cons next rest =>
          have hmore := ih hrest
          rw [List.map_cons, List.map_cons, List.intersperse_cons_cons, List.flatten_cons,
            List.flatten_cons, List.mem_append, List.mem_append]
          exact not_or.2 ⟨hpart, not_or.2 ⟨hseparator, hmore⟩⟩

end OneLine

theorem oneLine_nat (n : Nat) : OneLine n.repr := by
  intro hmem
  rw [Nat.repr, String.toList_ofList] at hmem
  have hdigit := Nat.isDigit_of_mem_toDigits (by decide) (by decide) hmem
  exact absurd hdigit (by decide)

theorem oneLine_int (n : Int) : OneLine (toString n) := by
  cases n with
  | ofNat n => exact oneLine_nat n
  | negSucc n =>
      have hsign : OneLine "-" := by decide
      exact hsign.append (oneLine_nat (n + 1))

namespace Json

/-! ## Strings -/

theorem not_mem_escapeControl {c : Char} (h : c.toNat < 0x20) : '\n' ∉ escapeControl c := by
  have hdigit : ∀ n < 16, '\n' ≠ Nat.digitChar n := by decide
  have hhigh := hdigit (c.toNat / 16) (by omega)
  have hlow := hdigit (c.toNat % 16) (Nat.mod_lt _ (by decide))
  simp [escapeControl, hhigh, hlow]

theorem not_mem_escape (c : Char) : '\n' ∉ escape c := by
  unfold escape
  split_ifs with _ _ _ _ hbreak _ _ hcontrol
  on_goal 9 => simpa using Ne.symm hbreak
  on_goal 8 => exact not_mem_escapeControl hcontrol
  all_goals decide

theorem oneLine_quote (s : String) : OneLine (quote s) := by
  have hinner : OneLine (String.ofList (s.toList.flatMap escape)) := by
    rw [OneLine, String.toList_ofList, List.mem_flatMap]
    rintro ⟨c, -, hbreak⟩
    exact not_mem_escape c hbreak
  have hsign : OneLine "\"" := by decide
  exact hsign.between hinner hsign

/-! ## Values -/

mutual

theorem oneLine_compact : (value : Json) → OneLine value.compact
  | .null => by decide
  | .bool true => by decide
  | .bool false => by decide
  | .integer n => oneLine_int n
  | .decimal mantissa places => by
    have hsign : OneLine "e-" := by decide
    exact (oneLine_int mantissa).between hsign (oneLine_nat places)
  | .string s => oneLine_quote s
  | .array items => by
    have hseparator : OneLine "," := by decide
    have hitems := hseparator.intercalate (oneLine_compactItems items)
    rw [compact]
    exact OneLine.between (by decide) hitems (by decide)
  | .object members => by
    have hseparator : OneLine "," := by decide
    have hmembers := hseparator.intercalate (oneLine_compactMembers members)
    rw [compact]
    exact OneLine.between (by decide) hmembers (by decide)

theorem oneLine_compactItems : (items : List Json) → ∀ part ∈ compactItems items, OneLine part
  | [] => by simp [compactItems]
  | item :: rest => by
    rw [compactItems]
    exact List.forall_mem_cons.2 ⟨oneLine_compact item, oneLine_compactItems rest⟩

theorem oneLine_compactMembers :
    (members : List (String × Json)) → ∀ part ∈ compactMembers members, OneLine part
  | [] => by simp [compactMembers]
  | (key, value) :: rest => by
    have hsign : OneLine ":" := by decide
    have hmember := (oneLine_quote key).between hsign (oneLine_compact value)
    rw [compactMembers]
    exact List.forall_mem_cons.2 ⟨hmember, oneLine_compactMembers rest⟩

end

end Json

end LatexOrigins
