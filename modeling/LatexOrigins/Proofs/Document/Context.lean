import LatexOrigins.Proofs.Document.Queries
import LatexOrigins.Proofs.Text.Encoded
import Mathlib.Data.Nat.PSub

/-!
# The context of an origin

The context of an origin is a part of its file: its range, a number of bytes on either
side, and what is needed to split no character. Both ends are searched for, away from the
range, and both searches end, at the latest at an end of the file. An origin that a query
answered with lies inside its file, so it has a context; of any other origin the file may
be missing or too short.
-/

namespace LatexOrigins

namespace Document

/-! ## Searching for a boundary -/

/-- A loop that moves on until a test holds ends at an offset, and each of its moves could
be made. -/
inductive Ends (test : Nat → Bool) (move : Nat → Option Nat) : Nat → Nat → Prop where
  | here {n : Nat} (h : test n = true) : Ends test move n n
  | moved {n next stop : Nat} (h : test n = false) (hmove : move n = some next)
      (hrest : Ends test move next stop) : Ends test move n stop

variable {test : Nat → Bool} {n stop : Nat}

theorem Ends.isGreatest (h : Ends test Nat.ppred n stop) :
    IsGreatest {k | k ≤ n ∧ test k = true} stop := by
  induction h with
  | @here n h => exact ⟨⟨Nat.le_refl n, h⟩, fun k hk => hk.1⟩
  | @moved n next stop h hmove hrest ih =>
      obtain rfl : next + 1 = n := Nat.ppred_eq_some.1 hmove
      refine ⟨⟨Nat.le_succ_of_le ih.1.1, ih.1.2⟩, fun k hk => ih.2 ⟨?_, hk.2⟩⟩
      have hne : k ≠ next + 1 := by
        rintro rfl
        exact Bool.false_ne_true (h.symm.trans hk.2)
      have hle := hk.1
      omega

theorem Ends.isLeast (h : Ends test (fun k => some (k + 1)) n stop) :
    IsLeast {k | n ≤ k ∧ test k = true} stop := by
  induction h with
  | @here n h => exact ⟨⟨Nat.le_refl n, h⟩, fun k hk => hk.1⟩
  | @moved n next stop h hmove hrest ih =>
      obtain rfl : n + 1 = next := Option.some.inj hmove
      refine ⟨⟨Nat.le_of_succ_le ih.1.1, ih.1.2⟩, fun k hk => ih.2 ⟨?_, hk.2⟩⟩
      have hne : k ≠ n := by
        rintro rfl
        exact Bool.false_ne_true (h.symm.trans hk.2)
      have hle := hk.1
      omega

theorem ends_boundaryBefore (text : String) (n : Nat) :
    Ends (Text.isBoundary text) Nat.ppred n (boundaryBefore text n) := by
  induction n with
  | zero => exact .here (Text.isBoundary_zero text)
  | succ n ih =>
      rw [boundaryBefore]
      split
      · next h => exact .here h
      · next h => exact .moved (Bool.eq_false_iff.2 h) rfl ih

theorem ends_boundaryAfter (text : String) {n count : Nat} (h : n + count = text.utf8ByteSize) :
    Ends (Text.isBoundary text) (fun k => some (k + 1)) n (boundaryAfter text n count) := by
  induction count generalizing n with
  | zero =>
      obtain rfl : n = text.utf8ByteSize := h
      exact .here (Text.isBoundary_size text)
  | succ count ih =>
      rw [boundaryAfter]
      split
      · next hn => exact .here hn
      · next hn => exact .moved (Bool.eq_false_iff.2 hn) rfl (ih (by omega))

/-! ## Contexts -/

/-- Where the context of a range starts and ends: at the last place between characters that
is not behind the range with some bytes before it, and at the first one that is not before
the range with some bytes behind it. The searches for both end there. -/
structure Surrounds (content : String) (span : Nat × Nat) (count first last : Nat) : Prop where
  isGreatest : IsGreatest {k | k ≤ span.1 - count ∧ Text.isBoundary content k = true} first
  isLeast : IsLeast
    {k | min (span.2 + count) content.utf8ByteSize ≤ k ∧ Text.isBoundary content k = true} last
  first_ends : Ends (Text.isBoundary content) Nat.ppred (span.1 - count) first
  last_ends : Ends (Text.isBoundary content) (fun k => some (k + 1))
    (min (span.2 + count) content.utf8ByteSize) last

variable {d : Document} {o : Origin} {content : String} {span : Nat × Nat}
  {count first last : Nat} {file : SourceFile}

theorem exists_surrounds (content : String) (span : Nat × Nat) (count : Nat) :
    Surrounds content span count (boundaryBefore content (span.1 - count))
      (boundaryAfter content (min (span.2 + count) content.utf8ByteSize)
        (content.utf8ByteSize - min (span.2 + count) content.utf8ByteSize)) := by
  have hfirst := ends_boundaryBefore content (span.1 - count)
  have hlast := ends_boundaryAfter content (n := min (span.2 + count) content.utf8ByteSize)
    (Nat.add_sub_cancel' (Nat.min_le_right _ _))
  exact ⟨hfirst.isGreatest, hlast.isLeast, hfirst, hlast⟩

theorem Surrounds.encloses (h : Surrounds content span count first last)
    (hinside : span.2 ≤ content.utf8ByteSize) : first ≤ span.1 ∧ span.2 ≤ last := by
  have hfirst := h.isGreatest.1.1
  have hlast := h.isLeast.1.1
  omega

theorem Surrounds.exists_slice (h : Surrounds content span count first last)
    (hspan : span.1 < span.2) (hinside : span.2 ≤ content.utf8ByteSize) :
    ∃ c, Text.slice? content first last = some c := by
  obtain ⟨hfirst, hlast⟩ := h.encloses hinside
  exact Option.isSome_iff_exists.1 <| Text.slice?_isSome_iff.2
    ⟨h.isGreatest.1.2, h.isLeast.1.2, by omega⟩

theorem Surrounds.widen {wider first' last' : Nat} (h : Surrounds content span count first last)
    (h' : Surrounds content span wider first' last') (hle : count ≤ wider) :
    first' ≤ first ∧ last ≤ last' := by
  have hfirst := h'.isGreatest.1
  have hlast := h'.isLeast.1
  refine ⟨h.isGreatest.2 ⟨?_, hfirst.2⟩, h.isLeast.2 ⟨?_, hlast.2⟩⟩
  · have := hfirst.1
    omega
  · have := hlast.1
    omega

theorem content?_of_fileAt? (hfile : d.source.fileAt? o.file = some file) :
    d.source.content? o.file = some file.lined.text := by
  rw [Source.content?, hfile, Option.map_some]

theorem context?_of_short (hfile : d.source.fileAt? o.file = some file)
    (hshort : file.lined.size < o.fileSpan.2) (count : Nat) : d.context? o count = none := by
  unfold context?
  rw [content?_of_fileAt? hfile]
  exact if_pos hshort

theorem exists_context (hfile : d.source.fileAt? o.file = some file)
    (hinside : o.fileSpan.2 ≤ file.lined.size) (count : Nat) :
    ∃ first last c, Surrounds file.lined.text o.fileSpan count first last ∧
      Text.slice? file.lined.text first last = some c ∧ d.context? o count = some c := by
  have hsurrounds := exists_surrounds file.lined.text o.fileSpan count
  obtain ⟨c, hc⟩ := hsurrounds.exists_slice o.place_lt hinside
  refine ⟨_, _, c, hsurrounds, hc, ?_⟩
  unfold context?
  rw [content?_of_fileAt? hfile]
  exact (if_neg (Nat.not_lt.2 hinside)).trans hc

theorem fileAt?_eq_none_iff {path : String} :
    d.source.fileAt? path = none ↔ path ∉ d.files := by
  rw [Source.fileAt?, Array.find?_eq_none, files, List.mem_map]
  simp

theorem find?_path_of_count {l : List SourceFile} (hmem : file ∈ l)
    (hcount : (l.map (·.path)).count file.path = 1) :
    l.find? (·.path = file.path) = some file := by
  induction l with
  | nil => cases hmem
  | cons other rest ih =>
      rw [List.map_cons, List.count_cons] at hcount
      by_cases hpath : other.path = file.path
      · rw [List.find?_cons_of_pos (by simpa using hpath)]
        rcases List.mem_cons.1 hmem with rfl | hrest
        · rfl
        · -- The path of the file is registered behind the first place too.
          have hpos := List.count_pos_iff.2 (List.mem_map_of_mem (f := (·.path)) hrest)
          rw [if_pos (by simpa using hpath)] at hcount
          omega
      · rw [List.find?_cons_of_neg (by simpa using hpath)]
        rw [if_neg (by simpa using hpath)] at hcount
        rcases List.mem_cons.1 hmem with rfl | hrest
        · exact absurd rfl hpath
        · exact ih hrest hcount

theorem fileAt?_of_count {id : Nat} (hcount : d.files.count file.path = 1)
    (hfile : d.source.file? id = some file) : d.source.fileAt? file.path = some file := by
  have hmem : file ∈ d.source.files.toList := Array.mem_toList_iff.2 (Array.mem_of_getElem? hfile)
  rw [Source.fileAt?, ← Array.find?_toList]
  exact find?_path_of_count hmem hcount

/-- The context of an origin is missing exactly if no file has its path, or if the file that
has it ends before the origin. -/
theorem context?_eq_none_iff (o : Origin) (count : Nat) : d.context? o count = none ↔
    o.file ∉ d.files ∨
      ∃ file, d.source.fileAt? o.file = some file ∧ file.lined.size < o.fileSpan.2 := by
  cases hfile : d.source.fileAt? o.file with
  | none =>
      have hnone : d.context? o count = none := by
        unfold context?
        rw [Source.content?, hfile]
        rfl
      exact iff_of_true hnone (Or.inl (fileAt?_eq_none_iff.1 hfile))
  | some file =>
      have hmem : o.file ∈ d.files := by
        by_contra hnot
        rw [fileAt?_eq_none_iff.2 hnot] at hfile
        cases hfile
      by_cases hshort : file.lined.size < o.fileSpan.2
      · exact iff_of_true (context?_of_short hfile hshort count) (Or.inr ⟨file, rfl, hshort⟩)
      · obtain ⟨first, last, c, -, -, hc⟩ := exists_context hfile (Nat.le_of_not_lt hshort) count
        refine iff_of_false (by rw [hc]; exact Option.some_ne_none c) ?_
        rintro (hnot | ⟨other, hother, hbehind⟩)
        · exact hnot hmem
        · obtain rfl := Option.some.inj hother
          exact hshort hbehind

theorem Traces.exists_file {b e : Nat} (h : d.Traces b e o) :
    ∃ file, d.source.file? o.fileId = some file ∧ file.path = o.file ∧
      o.fileSpan.2 ≤ file.lined.size := by
  obtain ⟨file, hfile, hpath⟩ := h.spans.place
  obtain ⟨k, -, x, hlast, hstop⟩ := h.spans.last_touched
  obtain ⟨found, hfound, hinside⟩ := Source.file?_of_provenance? hlast
  obtain rfl : found = file := Option.some.inj (hfound.symm.trans hfile)
  refine ⟨found, hfile, hpath.symm, ?_⟩
  rw [Origin.fileSpan, hstop]
  exact hinside

theorem exists_file_of_query {start stop : Address}
    (h : d.originOfSource start stop = .ok o ∨ d.originOfText start stop = .ok o) :
    ∃ file, d.source.file? o.fileId = some file ∧ file.path = o.file ∧
      o.fileSpan.2 ≤ file.lined.size := by
  rcases h with h | h
  · obtain ⟨b, e, -, -, hlt, hle, horigin⟩ := exists_range_of_originOfSource h
    exact (traces_of_originOfRange hlt hle horigin).exists_file
  · obtain ⟨p, q, x, y, found, -, -, hlt, hle, horigin, rfl⟩ := exists_range_of_originOfText h
    exact (traces_of_originOfRange hlt hle horigin).exists_file

/-- An origin that a query answered with has a context in its file, which holds its range and
is a part of every wider one, if its path is registered once. Any origin has a context
unless no file has its path or the file ends before it, and the searches for the ends of the
context end. -/
theorem contexts_cut (d : Document) :
    (∀ start stop o, d.originOfSource start stop = .ok o ∨ d.originOfText start stop = .ok o →
      d.files.count o.file = 1 →
      ∃ file, d.source.file? o.fileId = some file ∧ file.path = o.file ∧
        ∀ count, ∃ first last c, Surrounds file.lined.text o.fileSpan count first last ∧
          Text.slice? file.lined.text first last = some c ∧ d.context? o count = some c ∧
          first ≤ o.fileSpan.1 ∧ o.fileSpan.2 ≤ last ∧
          ∀ wider, count ≤ wider → ∃ front back,
            d.context? o wider = some (front ++ c ++ back)) ∧
    ∀ o count,
      (d.context? o count = none ↔ o.file ∉ d.files ∨
        ∃ file, d.source.fileAt? o.file = some file ∧ file.lined.size < o.fileSpan.2) ∧
      ∀ file, d.source.fileAt? o.file = some file → o.fileSpan.2 ≤ file.lined.size →
        ∃ first last c, Surrounds file.lined.text o.fileSpan count first last ∧
          Text.slice? file.lined.text first last = some c ∧ d.context? o count = some c := by
  refine ⟨fun start stop o hquery hcount => ?_, fun o count => ⟨context?_eq_none_iff o count,
    fun file hfile hinside => exists_context hfile hinside count⟩⟩
  obtain ⟨file, hfile, hpath, hinside⟩ := exists_file_of_query hquery
  have hat : d.source.fileAt? o.file = some file := by
    rw [← hpath] at hcount ⊢
    exact fileAt?_of_count hcount hfile
  refine ⟨file, hfile, hpath, fun count => ?_⟩
  obtain ⟨first, last, c, hsurrounds, hc, hcontext⟩ := exists_context hat hinside count
  obtain ⟨hfirst, hlast⟩ := hsurrounds.encloses hinside
  refine ⟨first, last, c, hsurrounds, hc, hcontext, hfirst, hlast, fun wider hle => ?_⟩
  obtain ⟨first', last', c', hsurrounds', hc', hcontext'⟩ := exists_context hat hinside wider
  obtain ⟨hbefore, hbehind⟩ := hsurrounds.widen hsurrounds' hle
  obtain ⟨front, back, rfl⟩ := Text.slice?_infix hc hc' hbefore hbehind
  exact ⟨front, back, hcontext'⟩

/-- A document of one file, in the middle of which a character takes two bytes. -/
def accented : Document where
  source := {
    flat := .ofString "aébc"
    files := #[⟨"/main.tex", .ofString "aébc"⟩]
    origins := #[some ⟨0, 0⟩, some ⟨0, 1⟩, some ⟨0, 2⟩, some ⟨0, 3⟩, some ⟨0, 4⟩]
    size_origins := rfl
    holds := Source.holds_of_stray? (by decide +kernel) }
  plain := loneBytes.plain
  spanLimit := 6
  spanLimit_pos := by decide
  fits := by decide +kernel

/-- The origin of the second byte of `é` has the whole character as its context, and wider
contexts hold it. -/
theorem contexts_cut_accented : ∃ o,
    accented.originOfSource (.offset 2) (.offset 3) = .ok o ∧ o.fileSpan = (2, 3) ∧
      accented.files.count o.file = 1 ∧ accented.context? o 0 = some "é" ∧
      (∃ front back, accented.context? o 1 = some (front ++ "é" ++ back)) ∧
      ∃ file, accented.source.fileAt? o.file = some file ∧ o.fileSpan.2 ≤ file.lined.size ∧
        ∃ first last c, Surrounds file.lined.text o.fileSpan 1 first last ∧
          Text.slice? file.lined.text first last = some c ∧ accented.context? o 1 = some c := by
  have horigin : accented.originOfSource (.offset 2) (.offset 3) = .ok _ := rfl
  have hfile : accented.source.fileAt? "/main.tex" = some ⟨"/main.tex", .ofString "aébc"⟩ := rfl
  refine ⟨_, horigin, rfl, by decide +kernel, by decide +kernel, ?_, _, hfile, by decide, ?_⟩
  · obtain ⟨file, -, -, hcontexts⟩ :=
      (contexts_cut accented).1 (.offset 2) (.offset 3) _ (.inl horigin) (by decide +kernel)
    obtain ⟨first, last, c, -, -, hc, -, -, hwider⟩ := hcontexts 0
    have hsmall : c = "é" := Option.some.inj (hc.symm.trans (by decide +kernel))
    exact hsmall ▸ hwider 1 (by decide)
  · exact ((contexts_cut accented).2 _ 1).2 _ hfile (by decide)

end Document

end LatexOrigins
