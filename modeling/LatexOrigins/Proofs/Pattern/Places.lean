import LatexOrigins.Pattern.Basic
import LatexOrigins.Proofs.Text.Encoded

/-!
# The places that a search notes

A search goes through a text one character at a time, and it notes only offsets that
it stands at. So all that it notes for a match, its ends and those of its captures, lies
between characters, whatever the pattern is.
-/

namespace LatexOrigins.Pattern

/-- The place in a text where `rest` is what follows. -/
def Stands (text : String) (offset : Nat) (rest : List Char) : Prop :=
  ∃ front : String, text = front ++ String.ofList rest ∧ offset = front.utf8ByteSize

namespace Stands

variable {text : String} {offset : Nat} {rest : List Char} {c : Char}

theorem start (text : String) : Stands text 0 text.toList :=
  ⟨"", by rw [String.ofList_toList, String.empty_append], rfl⟩

theorem advance (h : Stands text offset (c :: rest)) : Stands text (offset + c.utf8Size) rest := by
  obtain ⟨front, rfl, rfl⟩ := h
  refine ⟨front ++ String.singleton c, ?_, ?_⟩
  · rw [String.append_assoc, ← String.ofList_cons]
  · rw [String.utf8ByteSize_append, String.utf8ByteSize_singleton]

theorem isBoundary (h : Stands text offset rest) : Text.isBoundary text offset = true := by
  obtain ⟨front, rfl, rfl⟩ := h
  rw [Text.isBoundary_iff, String.Pos.Raw.isValid_iff_exists_append]
  exact ⟨front, String.ofList rest, rfl, rfl⟩

theorem seekFrom {target : Nat} {before : Option Char} (h : Stands text offset rest) :
    Stands text (Cursor.seekFrom target before offset rest).offset
      (Cursor.seekFrom target before offset rest).rest := by
  induction rest generalizing before offset with
  | nil => exact h
  | cons c rest ih =>
      rw [Cursor.seekFrom]
      split
      · exact h
      · exact ih h.advance

end Stands

section Noted

variable {text : String}

/-- All offsets that are noted lie between characters. -/
def Slots.Noted (text : String) (slots : Slots) : Prop :=
  ∀ n, some n ∈ slots → Text.isBoundary text n = true

theorem Slots.noted_replicate (size : Nat) : Slots.Noted text (Array.replicate size none) := by
  intro n hn
  have := Array.eq_of_mem_replicate hn
  contradiction

theorem Slots.Noted.set {slots : Slots} (h : slots.Noted text) {slot offset : Nat}
    (hoffset : Text.isBoundary text offset = true) :
    Slots.Noted text (slots.setIfInBounds slot (some offset)) := by
  intro n hn
  rcases Array.mem_or_eq_of_mem_setIfInBounds hn with hmem | heq
  · exact h n hmem
  · rwa [Option.some.inj heq]

theorem Slots.Noted.range? {slots : Slots} (h : slots.Noted text) {index start stop : Nat}
    (hrange : Program.range? slots index = some (start, stop)) :
    Text.isBoundary text start = true ∧ Text.isBoundary text stop = true := by
  have hmem {i n : Nat} (hget : slots.getD i none = some n) : some n ∈ slots := by
    rw [Array.getD_eq_getD_getElem?, Option.getD_eq_iff] at hget
    rcases hget with hsome | ⟨-, hnone⟩
    · exact Array.mem_of_getElem? hsome
    · contradiction
  rw [Program.range?] at hrange
  split at hrange
  next first last hfirst hlast =>
    obtain ⟨rfl, rfl⟩ : first = start ∧ last = stop := by simpa using hrange
    exact ⟨h _ (hmem hfirst), h _ (hmem hlast)⟩
  next => contradiction

def Thread.Noted (text : String) (t : Thread) : Prop := t.slots.Noted text

def Frontier.Noted (text : String) (f : Frontier) : Prop := ∀ t ∈ f.threads, t.Noted text

theorem Frontier.noted_empty (size : Nat) : (Frontier.empty size).Noted text := by
  intro t ht
  exact absurd ht (Array.not_mem_empty t)

theorem Frontier.Noted.push {f : Frontier} (hf : f.Noted text) {t : Thread} (ht : t.Noted text) :
    Frontier.Noted text { f with threads := f.threads.push t } := by
  intro other hother
  rcases Array.mem_push.1 hother with hmem | rfl
  · exact hf other hmem
  · exact ht

/-- What is noted on the way to the nodes that take a character is where the search
stands. -/
theorem Frontier.Noted.explore {nodes : Array Node} {before after : Option Char} {offset : Nat}
    (hoffset : Text.isBoundary text offset = true) {count : Nat} {threads : List Thread}
    {f : Frontier} (hthreads : ∀ t ∈ threads, t.Noted text) (hf : f.Noted text) :
    (f.explore nodes before after offset count threads).Noted text := by
  fun_induction Frontier.explore nodes before after offset count threads f
  case case1 | case2 => exact hf
  all_goals obtain ⟨hfirst, hothers⟩ := List.forall_mem_cons.1 hthreads
  case case3 ih => exact ih hothers hf
  case case4 ih =>
      exact ih (List.forall_mem_cons.2 ⟨hfirst, List.forall_mem_cons.2 ⟨hfirst, hothers⟩⟩) hf
  case case5 ih =>
      refine ih ?_ hf
      split
      · exact List.forall_mem_cons.2 ⟨hfirst, hothers⟩
      · exact hothers
  case case6 ih =>
      -- Only here an offset is noted.
      refine ih (List.forall_mem_cons.2 ⟨?_, hothers⟩) hf
      exact Slots.Noted.set hfirst hoffset
  case case7 ih | case8 ih => exact ih hothers (Frontier.Noted.push hf hfirst)
  case case9 ih => exact ih hothers hf

namespace Program

variable {p : Program} {offset : Nat} {rest : List Char} {best : Option Slots}

theorem noted_enter {before : Option Char} {f : Frontier}
    (hoffset : Text.isBoundary text offset = true) (hf : f.Noted text) :
    (p.enter before offset rest f).Noted text := by
  refine Frontier.Noted.explore hoffset (fun t ht => ?_) hf
  obtain rfl := List.mem_singleton.1 ht
  exact Slots.noted_replicate _

theorem noted_stepAll {next : Frontier} {threads : List Thread} (hrest : Stands text offset rest)
    (hbest : ∀ slots ∈ best, slots.Noted text) (hnext : next.Noted text)
    (hthreads : ∀ t ∈ threads, t.Noted text) :
    (∀ slots ∈ (p.stepAll offset rest best next threads).1, slots.Noted text) ∧
      (p.stepAll offset rest best next threads).2.Noted text := by
  induction threads generalizing next with
  | nil => exact ⟨hbest, hnext⟩
  | cons t others ih =>
      obtain ⟨ht, hothers⟩ := List.forall_mem_cons.1 hthreads
      rw [stepAll]
      split
      · refine ⟨fun slots hslots => ?_, hnext⟩
        obtain rfl := Option.some.inj hslots
        exact ht
      · cases rest with
        | nil => exact ih hnext hothers
        | cons c after =>
            refine ih ?_ hothers
            split
            · refine Frontier.Noted.explore hrest.advance.isBoundary (fun other hother => ?_) hnext
              obtain rfl := List.mem_singleton.1 hother
              exact ht
            · exact hnext
      · exact ih hnext hothers

/-- While nothing is found, a search may also start where it stands. -/
theorem noted_round {before : Option Char} {f : Frontier} (hrest : Stands text offset rest)
    (hbest : ∀ slots ∈ best, slots.Noted text) (hf : f.Noted text)
    {round : Option Slots × Frontier}
    (hround : p.stepAll offset rest best (Frontier.empty p.nodes.size)
      (if best.isNone then p.enter before offset rest f else f).threads.toList = round) :
    (∀ slots ∈ round.1, slots.Noted text) ∧ round.2.Noted text := by
  rw [← hround]
  refine noted_stepAll hrest hbest (Frontier.noted_empty _) fun t ht => ?_
  rw [Array.mem_toList_iff] at ht
  split at ht
  · exact noted_enter hrest.isBoundary hf t ht
  · exact hf t ht

theorem noted_searchFrom {before : Option Char} {f : Frontier} (hrest : Stands text offset rest)
    (hbest : ∀ slots ∈ best, slots.Noted text) (hf : f.Noted text) :
    ∀ slots ∈ p.searchFrom best f before offset rest, slots.Noted text := by
  induction rest generalizing best f before offset with
  | nil =>
      rw [searchFrom]
      generalize hround : p.stepAll offset _ best _ _ = round
      exact (noted_round hrest hbest hf hround).1
  | cons c after ih =>
      rw [searchFrom]
      generalize hround : p.stepAll offset _ best _ _ = round
      obtain ⟨hfound, hnext⟩ := noted_round hrest hbest hf hround
      obtain ⟨found, next⟩ := round
      dsimp only
      split
      · exact hfound
      · exact ih hrest.advance hfound hnext

theorem noted_search {cursor : Cursor} (h : Stands text cursor.offset cursor.rest) :
    ∀ slots ∈ p.search cursor, slots.Noted text :=
  noted_searchFrom h (fun _ hslots => absurd hslots (Option.not_mem_none _))
    (Frontier.noted_empty _)

theorem noted_searchAfter {last : Option Nat} {cursor : Cursor}
    (h : Stands text cursor.offset cursor.rest) :
    ∀ slots ∈ p.searchAfter last cursor, slots.Noted text := by
  intro slots hslots
  rw [searchAfter] at hslots
  split at hslots
  · contradiction
  next found hfound =>
    split at hslots
    · split at hslots
      · split at hslots
        · contradiction
        next c rest hrest =>
          rw [hrest] at h
          exact noted_search h.advance slots hslots
      · obtain rfl := Option.some.inj hslots
        exact noted_search h _ hfound
    · contradiction

theorem noted_searchAll {last : Option Nat} {cursor : Cursor} {count : Nat}
    (h : Stands text cursor.offset cursor.rest) :
    ∀ slots ∈ p.searchAll last cursor count, slots.Noted text := by
  induction count generalizing last cursor with
  | zero => exact List.forall_mem_nil _
  | succ count ih =>
      rw [searchAll]
      split
      · exact List.forall_mem_nil _
      next slots hslots =>
        split
        · exact List.forall_mem_nil _
        · exact List.forall_mem_cons.2 ⟨noted_searchAfter h _ hslots, ih h.seekFrom⟩

end Program

end Noted

theorem noted_slots (p : Pattern) (text : String) : ∀ slots ∈ p.slots text, slots.Noted text :=
  Program.noted_searchAll (Stands.start text)

theorem isBoundary_of_mem_ranges {p : Pattern} {text : String} {range : Nat × Nat}
    (h : range ∈ p.ranges text) :
    Text.isBoundary text range.1 = true ∧ Text.isBoundary text range.2 = true := by
  obtain ⟨slots, hslots, hrange⟩ := List.mem_filterMap.1 h
  exact (noted_slots p text slots hslots).range? hrange

end LatexOrigins.Pattern
