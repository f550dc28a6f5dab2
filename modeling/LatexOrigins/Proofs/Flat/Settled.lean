import LatexOrigins.Proofs.Flat.Building
import LatexOrigins.Proofs.Flat.Tidy

/-!
# Settled moves

Keeping a piece and then taking some of its bytes back is the same as keeping less.
So tidy moves can be settled beforehand, and settled moves only ever append: what
they are performed on stays in front of what they add.
-/

namespace LatexOrigins.Flat

open Markup
open Text (Encoded)

/-- The same moves with nothing taken back: the moves before keep that much less. -/
def settle : List Move → List Move
  | [] => []
  | .keep start stop :: rest => .keep start (stop - takenBack rest) :: settle rest
  | .comment offset _ :: rest => .comment offset none :: settle rest
  | .follow start stop :: rest => .follow start stop :: settle rest

/-- A move that cuts between characters and takes nothing back. -/
inductive Clean (content : String) : Move → Prop where
  | keep {start stop : Nat} (hstart : Cut (Text.bytes content) start)
      (hstop : Cut (Text.bytes content) stop) (hle : start ≤ stop) :
      Clean content (.keep start stop)
  | comment {offset : Nat} : Clean content (.comment offset none)
  | follow {start stop : Nat} (hstart : Cut (Text.bytes content) start)
      (hstop : Cut (Text.bytes content) stop) (hle : start ≤ stop) :
      Clean content (.follow start stop)

theorem Tidy.clean {content : String} {moves : List Move} (h : Tidy (Text.bytes content) moves) :
    ∀ move ∈ settle moves, Clean content move := by
  induction h with
  | nil =>
      intro move hmove
      cases hmove
  | keep hstart hstop _ hle _ ih =>
      exact List.forall_mem_cons.2 ⟨Clean.keep hstart hstop (by omega), ih⟩
  | comment _ _ ih => exact List.forall_mem_cons.2 ⟨Clean.comment, ih⟩
  | follow hstart hstop hle _ _ ih =>
      exact List.forall_mem_cons.2 ⟨Clean.follow hstart hstop hle, ih⟩

/-! ## Pieces -/

/-- The table of a flat source has one entry for each byte. -/
def Aligned (flat : Flat) : Prop := flat.entries.length = flat.textBytes.length

theorem aligned_empty : Aligned empty := rfl

theorem Aligned.enter {flat : Flat} (h : Aligned flat) (path content : String) :
    Aligned (flat.enter path content).1 := by
  obtain ⟨-, htext, horigins, -, -⟩ := enter_spec flat path content
  rw [Aligned, textBytes, entries, htext, horigins]
  exact h

theorem Aligned.keep {flat flat' : Flat} {id start stop : Nat} {content : String}
    (h : Aligned flat) (hkeep : flat.keep id content start stop = .ok flat') : Aligned flat' := by
  obtain ⟨-, hbytes, hentries⟩ := keep_eq_ok hkeep
  have hcut : (cutOut content start stop).length = stop - start := by
    have hinside := le_size_of_keep_eq_ok hkeep
    rw [cutOut, List.length_take, List.length_drop, Text.length_bytes]
    omega
  rw [Aligned, hbytes, hentries, List.length_append, List.length_append, h, length_provenances,
    hcut]

theorem Aligned.retract {flat flat' : Flat} {count : Nat} (h : Aligned flat)
    (hretract : flat.retract count = .ok flat') : Aligned flat' := by
  obtain ⟨-, -, hbytes, hentries⟩ := retract_eq_ok hretract
  rw [Aligned, hbytes, hentries, List.length_take, List.length_take, h]

theorem eq_of_parts {flat flat' : Flat} (hfiles : flat'.files = flat.files)
    (hbytes : flat'.textBytes = flat.textBytes) (hentries : flat'.entries = flat.entries) :
    flat' = flat := by
  cases flat
  cases flat'
  obtain rfl := Text.bytes_injective hbytes
  obtain rfl := Array.toList_inj.1 hentries
  obtain rfl := hfiles
  rfl

theorem cutOut_append (content : String) {a b c : Nat} (hab : a ≤ b) (hbc : b ≤ c) :
    cutOut content a b ++ cutOut content b c = cutOut content a c := by
  have hwhole : c - a = (b - a) + (c - b) := by omega
  rw [cutOut, cutOut, cutOut, hwhole, List.take_add, List.drop_drop, Nat.add_sub_cancel' hab]

theorem provenances_append (id : Nat) {a b c : Nat} (hab : a ≤ b) (hbc : b ≤ c) :
    provenances id a b ++ provenances id b c = provenances id a c := by
  have hwhole : c - a = (b - a) + (c - b) := by omega
  rw [provenances, provenances, provenances, hwhole, ← List.range'_append, Nat.one_mul,
    Nat.add_sub_cancel' hab, List.map_append]

theorem length_cutOut {content : String} {start stop : Nat}
    (hstop : Cut (Text.bytes content) stop) : (cutOut content start stop).length = stop - start := by
  have hle := hstop.le_length
  rw [cutOut, List.length_take, List.length_drop]
  omega

theorem exists_keep (flat : Flat) (id : Nat) {content : String} {start stop : Nat}
    (hstart : Cut (Text.bytes content) start) (hstop : Cut (Text.bytes content) stop)
    (hle : start ≤ stop) : ∃ flat', flat.keep id content start stop = .ok flat' := by
  unfold Flat.keep
  split
  · obtain ⟨piece, hpiece⟩ := Option.isSome_iff_exists.1 (Text.slice?_isSome_iff.2
      ⟨isBoundary_iff_cut.2 hstart, isBoundary_iff_cut.2 hstop, hle⟩)
    rw [hpiece]
    exact ⟨_, rfl⟩
  · exact ⟨flat, rfl⟩

theorem exists_retract {flat : Flat} {count : Nat} (hle : count ≤ flat.textBytes.length)
    (hcut : Cut flat.textBytes (flat.textBytes.length - count)) :
    ∃ flat', flat.retract count = .ok flat' := by
  have hstart : Cut flat.textBytes 0 := Cut.zero (Text.encoded_bytes _)
  obtain ⟨text, htext⟩ := Option.isSome_iff_exists.1 (Text.slice?_isSome_iff.2
    ⟨isBoundary_iff_cut.2 hstart, isBoundary_iff_cut.2 hcut, Nat.zero_le _⟩)
  rw [Text.length_bytes] at hle htext
  unfold Flat.retract
  rw [if_pos hle]
  simp only [htext]
  exact ⟨_, rfl⟩

theorem retract_zero {flat : Flat} (h : Aligned flat) : flat.retract 0 = .ok flat := by
  obtain ⟨flat', hflat'⟩ := exists_retract (Nat.zero_le _) (Cut.length flat.textBytes)
  obtain ⟨-, hfiles, hbytes, hentries⟩ := retract_eq_ok hflat'
  rw [Nat.sub_zero, List.take_length] at hbytes
  rw [Nat.sub_zero, ← h, List.take_length] at hentries
  rw [hflat', eq_of_parts hfiles hbytes hentries]

/-- Keeping a piece and taking the end of it back is keeping less. -/
theorem keep_retract {flat : Flat} (h : Aligned flat) (id : Nat) {content : String}
    {start stop count : Nat} (hstart : Cut (Text.bytes content) start)
    (hstop : Cut (Text.bytes content) (stop - count)) (hall : Cut (Text.bytes content) stop)
    (hle : start + count ≤ stop) : ∃ whole part, flat.keep id content start stop = .ok whole ∧
      whole.retract count = .ok part ∧ flat.keep id content start (stop - count) = .ok part := by
  obtain ⟨whole, hwhole⟩ := exists_keep flat id hstart hall (by omega)
  obtain ⟨part, hpart⟩ := exists_keep flat id hstart hstop (by omega)
  obtain ⟨hfiles, hbytes, hentries⟩ := keep_eq_ok hwhole
  obtain ⟨hfiles', hbytes', hentries'⟩ := keep_eq_ok hpart
  have hkept : start ≤ stop - count := by omega
  rw [← cutOut_append content hkept (Nat.sub_le stop count), ← List.append_assoc, ← hbytes'] at hbytes
  rw [← provenances_append id hkept (Nat.sub_le stop count), ← List.append_assoc, ← hentries']
    at hentries
  have haligned : Aligned part := h.keep hpart
  have hlength : whole.textBytes.length - count = part.textBytes.length := by
    rw [hbytes, List.length_append, length_cutOut hall]
    omega
  have hcut : Cut whole.textBytes (whole.textBytes.length - count) := by
    rw [hlength, hbytes]
    refine ⟨by rw [List.length_append]; exact Nat.le_add_right _ _, ?_⟩
    rw [List.drop_left]
    exact hstop.between hall (Nat.sub_le _ _)
  have hcount : count ≤ whole.textBytes.length := by
    rw [hbytes, List.length_append, length_cutOut hall]
    omega
  obtain ⟨result, hresult⟩ := exists_retract hcount hcut
  obtain ⟨-, hfilesR, hbytesR, hentriesR⟩ := retract_eq_ok hresult
  refine ⟨whole, part, hwhole, ?_, hpart⟩
  rw [hlength, hbytes, List.take_left] at hbytesR
  rw [hlength, ← haligned, hentries, List.take_left] at hentriesR
  rw [hresult, eq_of_parts (hfilesR.trans (hfiles.trans hfiles'.symm)) hbytesR hentriesR]

/-! ## Whole expansions -/

theorem preserved_aligned (files : FileSet) : Preserved files Aligned where
  enter _ hflat := hflat.enter _ _
  keep _ _ hflat hkeep := hflat.keep hkeep
  retract hflat hretract := hflat.retract hretract

theorem expandFile_aligned {files : FileSet} {options : Options} {limit : Nat}
    {opened : List String} {flat flat' : Flat} {path : String}
    (h : expandFile files options limit opened flat path = .ok flat') (hflat : Aligned flat) :
    Aligned flat' :=
  expandFile_preserves (preserved_aligned files) h hflat

theorem perform_aligned {files : FileSet} {enter : Flat → String → Except LoadError Flat}
    {path content : String} {id : Nat} {flat flat' : Flat} {move : Move}
    (henter : ∀ {inner result other}, enter inner other = .ok result → Aligned inner →
      Aligned result)
    (hflat : Aligned flat) (h : perform files enter path id content flat move = .ok flat') :
    Aligned flat' := by
  cases move with
  | keep start stop => exact hflat.keep (Results.mapError_eq_ok.1 h)
  | comment offset indentation =>
      cases indentation with
      | none => exact Except.ok.inj h ▸ hflat
      | some count => exact hflat.retract (Results.mapError_eq_ok.1 h)
  | follow start stop =>
      obtain ⟨_, target, -, -, htarget⟩ := perform_follow_eq_ok h
      exact henter htarget hflat

theorem foldlM_aligned {files : FileSet} {options : Options} {limit id : Nat}
    {opened : List String} {path content : String} {moves : List Move} {flat flat' : Flat}
    (hflat : Aligned flat)
    (h : moves.foldlM (perform files (expandFile files options limit opened) path id content) flat =
      .ok flat') : Aligned flat' :=
  Results.foldlM_invariant Aligned
    (fun _ _ _ _ hinner hperform => perform_aligned expandFile_aligned hinner hperform) hflat h

theorem bind_congr_ok {ε α β : Type} {x : Except ε α} {f g : α → Except ε β}
    (h : ∀ a, x = .ok a → f a = g a) : (x >>= f) = (x >>= g) := by
  cases x with
  | error e => rfl
  | ok a => exact h a rfl

/-- Performing tidy moves is performing the settled ones on what is left of a flat
source when the first of them has taken back what it does. -/
theorem foldlM_settle {files : FileSet} {enter : Flat → String → Except LoadError Flat}
    {path content : String} {id : Nat} {moves : List Move}
    (henter : ∀ {inner result other}, enter inner other = .ok result → Aligned inner →
      Aligned result)
    (h : Tidy (Text.bytes content) moves) {flat rest : Flat} (hflat : Aligned flat)
    (hrest : flat.retract (takenBack moves) = .ok rest) :
    moves.foldlM (perform files enter path id content) flat =
      (settle moves).foldlM (perform files enter path id content) rest := by
  induction h generalizing flat rest with
  | nil =>
      obtain rfl := Except.ok.inj ((retract_zero hflat).symm.trans hrest)
      rfl
  | @keep start stop moves hstart hstop hall htaken _ ih =>
      obtain rfl := Except.ok.inj ((retract_zero hflat).symm.trans hrest)
      obtain ⟨whole, part, hwhole, hretract, hpart⟩ :=
        keep_retract hflat id hstart hstop hall htaken
      have hkeep : perform files enter path id content flat (.keep start stop) = .ok whole := by
        rw [perform, hwhole, Results.mapError_ok]
      have hless : perform files enter path id content flat
          (.keep start (stop - takenBack moves)) = .ok part := by
        rw [perform, hpart, Results.mapError_ok]
      rw [settle, List.foldlM_cons, List.foldlM_cons, hkeep, hless]
      exact ih (hflat.keep hwhole) hretract
  | @comment offset indentation moves htaken _ ih =>
      rw [settle, List.foldlM_cons, List.foldlM_cons]
      cases indentation with
      | none =>
          obtain rfl := Except.ok.inj ((retract_zero hflat).symm.trans hrest)
          refine ih hflat ?_
          rw [htaken]
          exact retract_zero hflat
      | some count =>
          rw [takenBack] at hrest
          have hshrunk := hflat.retract hrest
          have hperform : perform files enter path id content flat
              (.comment offset (some count)) = .ok rest := by
            rw [perform, hrest, Results.mapError_ok]
          rw [hperform]
          refine ih hshrunk ?_
          rw [htaken]
          exact retract_zero hshrunk
  | @follow start stop moves hstart hstop hle htaken _ ih =>
      obtain rfl := Except.ok.inj ((retract_zero hflat).symm.trans hrest)
      rw [settle, List.foldlM_cons, List.foldlM_cons]
      refine bind_congr_ok fun result hresult => ?_
      obtain ⟨_, target, -, -, htarget⟩ := perform_follow_eq_ok hresult
      have hgrown := henter htarget hflat
      refine ih hgrown ?_
      rw [htaken]
      exact retract_zero hgrown

/-- A file that can be entered is expanded by its settled moves. -/
theorem expandFile_settled {files : FileSet} {options : Options} {limit : Nat}
    {opened : List String} {flat : Flat} {path content : String} (hopen : path ∉ opened)
    (hread : files.read path = .ok content) (hflat : Aligned flat) :
    expandFile files options (limit + 1) opened flat path =
      (settle (moves options content)).foldlM
        (perform files (expandFile files options limit (path :: opened)) path
          (flat.enter path content).2 content)
        (flat.enter path content).1 := by
  obtain ⟨htidy, htaken⟩ := tidy_moves options content
  have hentered := hflat.enter path content
  have hzero : (flat.enter path content).1.retract (takenBack (moves options content)) =
      .ok (flat.enter path content).1 := by
    rw [htaken]
    exact retract_zero hentered
  rw [expandFile, if_neg (by simpa using hopen), hread]
  exact foldlM_settle expandFile_aligned htidy hentered hzero

end LatexOrigins.Flat
