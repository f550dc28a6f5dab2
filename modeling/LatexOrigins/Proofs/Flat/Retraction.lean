import LatexOrigins.Proofs.Flat.Directive
import LatexOrigins.Proofs.Flat.Repeat
import LatexOrigins.Proofs.Flat.Silence
import Mathlib.Data.List.Chain

/-!
# What a comment takes back

Whether a comment takes bytes back depends on the bytes of its line alone, but what it
takes them from is whatever the run has put together by then: text of other files, an
argument that was unwrapped, the end of a construct that runs over several lines. The
moves join so that this makes no difference. A move that takes bytes back stands just
behind one that keeps a piece of the same file up to that very place, and the piece
holds the indentation. So the last entries of the table are the indentation of the
comment, and nothing else goes.
-/

namespace LatexOrigins.Flat

open Markup
open Text (Encoded)

variable {files : FileSet} {options : Options} {bytes : List UInt8} {content path main : String}
  {offset limit start comment count id : Nat} {indentation : Option Nat} {ms : List Move}
  {flat middle : Flat}

/-! ## The line of a comment -/

/-- The line in which an offset lies begins at another. -/
structure LineBegins (bytes : List UInt8) (start offset : Nat) : Prop where
  le : start ≤ offset
  starts : StartsLine bytes start
  unbroken : ∀ k, start ≤ k → k < offset → bytes[k]? ≠ some lineBreak

theorem LineBegins.unique {other : Nat} (h : LineBegins bytes start offset)
    (hother : LineBegins bytes other offset) : start = other := by
  have hle {a b : Nat} (ha : LineBegins bytes a offset) (hb : LineBegins bytes b offset) :
      b ≤ a := by
    by_contra hlt
    -- Otherwise the break in front of the later beginning stands in the line of the earlier.
    rcases hb.starts with hzero | hbreak
    · omega
    · have hinside := hb.le
      exact ha.unbroken (b - 1) (by omega) (by omega) hbreak
  exact Nat.le_antisymm (hle hother h) (hle h hother)

/-- The width of the part of the line that stands before an offset. -/
def frontWidth (bytes : List UInt8) (offset : Nat) : Nat :=
  (restOfLine (bytes.take offset).reverse).length

theorem frontWidth_le (bytes : List UInt8) (offset : Nat) : frontWidth bytes offset ≤ offset := by
  have hspan : frontWidth bytes offset ≤ (bytes.take offset).reverse.length :=
    (List.takeWhile_prefix _).length_le
  rw [List.length_reverse, List.length_take] at hspan
  omega

theorem lineBegins_frontWidth (h : offset ≤ bytes.length) :
    LineBegins bytes (offset - frontWidth bytes offset) offset where
  le := Nat.sub_le _ _
  starts := by
    by_cases hwhole : frontWidth bytes offset < offset
    · right
      have hlength : (bytes.take offset).reverse.length = offset := by
        rw [List.length_reverse, List.length_take_of_le h]
      have hbreak := lineBreak_of_restOfLine_lt (l := (bytes.take offset).reverse)
        (by rwa [hlength])
      rw [← frontWidth, getElem?_reverse_take h hwhole] at hbreak
      rw [← hbreak]
      congr 1
      omega
    · left
      omega
  unbroken k hk hlt := by
    have hle := frontWidth_le bytes offset
    have hinside : offset - 1 - k < (restOfLine ((bytes.take offset).reverse.drop 0)).length := by
      rw [List.drop_zero, ← frontWidth]
      omega
    obtain ⟨c, hc, hbreak⟩ := exists_byte_of_lt_restOfLine hinside
    rw [Nat.zero_add, getElem?_reverse_take h (by omega)] at hc
    have hk : offset - 1 - (offset - 1 - k) = k := by omega
    rw [hk] at hc
    rw [hc]
    exact fun heq => hbreak (Option.some.inj heq)

theorem LineBegins.frontWidth_eq (h : LineBegins bytes start offset) (hle : offset ≤ bytes.length) :
    frontWidth bytes offset = offset - start := by
  have hstart := h.unique (lineBegins_frontWidth hle)
  have hfront := frontWidth_le bytes offset
  omega

theorem LineBegins.indented_iff (h : LineBegins (Text.bytes content) start offset)
    (hle : offset ≤ (Text.bytes content).length) :
    Indented (Text.bytes content) offset ↔
      (cutOut content start offset).all isInlineBlank = true := by
  have hwidth := h.frontWidth_eq hle
  have hprefix : restOfLine ((Text.bytes content).take offset).reverse =
      ((Text.bytes content).take offset).reverse.take (offset - start) := by
    rw [← hwidth]
    exact List.prefix_iff_eq_take.1 (List.takeWhile_prefix _)
  have hstart : offset - (offset - start) = start := Nat.sub_sub_self h.le
  rw [Indented, hprefix, List.take_reverse, List.length_take_of_le hle, hstart, List.drop_take,
    List.all_reverse, cutOut]

theorem LineBegins.indentation_eq (h : LineBegins (Text.bytes content) start comment)
    (hle : comment ≤ (Text.bytes content).length) {width : Nat}
    (hcomment : CommentAt options ((Text.bytes content).take comment).reverse
      ((Text.bytes content).drop comment) indentation width) :
    indentation =
      if (cutOut content start comment).all isInlineBlank then some (comment - start) else none := by
  have hblank := h.indented_iff hle
  have hwidth := h.frontWidth_eq hle
  cases hcomment with
  | trailing hsome => exact (if_neg fun hall => hsome (hblank.2 hall)).symm
  | alone hall | pause hall => rw [if_pos (hblank.1 hall), ← hwidth, frontWidth]

theorem commentAt_of_mem (h : .comment comment indentation ∈ moves options content) :
    comment < (Text.bytes content).length ∧ ∃ width,
      CommentAt options ((Text.bytes content).take comment).reverse
        ((Text.bytes content).drop comment) indentation width := by
  have hencoded := Text.encoded_bytes content
  rw [moves_eq] at h
  obtain ⟨offset, limit, hscanned, hlt, hmem⟩ := Scanned.start.exists_of_mem hencoded h
  obtain ⟨rfl, width, hstep⟩ := mem_movesAt_comment hmem
  obtain ⟨-, whole, -, hcomment⟩ := hscanned.commentAt hlt hstep
  have hlimit := hscanned.limit_le hencoded
  exact ⟨by omega, whole, hcomment⟩

/-! ## How moves join -/

/-- A move may come behind another: if it takes bytes back, the other keeps a piece that
ends where it stands. -/
def Joins (move next : Move) : Prop :=
  ∀ place count, next = .comment place (some count) → 0 < count → ∃ start, move = .keep start place

/-- The first move takes nothing back, unless it stands at an offset. -/
def LedBy (offset : Nat) (moves : List Move) : Prop :=
  ∀ place count, moves.head? = some (.comment place (some count)) → 0 < count → place = offset

theorem takenBack_eq_of_head {place : Nat} (h : ms.head? = some (.comment place (some count))) :
    takenBack ms = count := by
  obtain ⟨rest, rfl⟩ := List.head?_eq_some_iff.1 h
  rfl

theorem ledBy_of_settled (h : takenBack ms = 0) (offset : Nat) : LedBy offset ms := by
  intro place count hhead hpos
  rw [takenBack_eq_of_head hhead] at h
  omega

theorem joins_of_settled (h : takenBack ms = 0) (move : Move) :
    ∀ next ∈ ms.head?, Joins move next := by
  rintro next hnext place count rfl hpos
  rw [takenBack_eq_of_head hnext] at h
  omega

theorem joins_of_ledBy (h : LedBy offset ms) (start : Nat) :
    ∀ next ∈ ms.head?, Joins (.keep start offset) next := by
  rintro next hnext place count rfl hpos
  obtain rfl := h place count hnext hpos
  exact ⟨start, rfl⟩

theorem Scanned.settled (hencoded : Encoded bytes) (h : Scanned options bytes offset limit)
    (hindent : offset < limit → indentAt bytes offset = 0) :
    takenBack (movesBetween options bytes offset limit) = 0 :=
  (settled_of_fresh (h.tidyFrom hencoded) hindent).2

/-- The moves of a scan join, in arguments and behind them too. -/
theorem Scanned.joined (hencoded : Encoded bytes) (h : Scanned options bytes offset limit) :
    (movesBetween options bytes offset limit).IsChain Joins ∧
      LedBy offset (movesBetween options bytes offset limit) := by
  refine Scanned.induct
    (motive := fun o l => (movesBetween options bytes o l).IsChain Joins ∧
      LedBy o (movesBetween options bytes o l)) hencoded (fun offset limit hle => ?_) ?_ h
  · rw [movesBetween_of_le hle]
    exact ⟨.nil, ledBy_of_settled rfl offset⟩
  intro offset limit h hlt ihinner ihnext
  have hcut := (h.cuts hencoded).1
  have hlimit := h.limit_le hencoded
  have hfound := h.found hencoded hlt
  have hinner (bounds : Nat × Nat) :
      (stepAt options bytes offset limit).kept = some bounds →
        Scanned options bytes (offset + bounds.1) (offset + bounds.2) := h.inner hlt
  have hsettled := (h.next hlt).settled hencoded
  rw [movesBetween_of_lt hlt hlimit]
  generalize stepAt options bytes offset limit = s at *
  cases hfound with
  | run | symbol | word =>
      exact ⟨ihnext.1.cons (joins_of_ledBy ihnext.2 offset), ledBy_of_settled rfl offset⟩
  | @comment indentation width hpercent hcomment =>
      rw [List.getElem?_drop, Nat.add_zero] at hpercent
      have hzero := hsettled fun hinside => by
        rw [Step.width] at hinside ⊢
        rw [Nat.min_eq_left (by omega)] at hinside ⊢
        exact indentAt_commentAt hcut hpercent hcomment (by omega)
      refine ⟨ihnext.1.cons (joins_of_settled hzero _), fun place count hhead _ => ?_⟩
      exact (Move.comment.inj (Option.some.inj hhead)).1.symm
  | follow _ _ _ _ _ hsolid =>
      have hzero := hsettled fun _ => indentAt_of_solid hsolid.of_drop
      exact ⟨ihnext.1.cons (joins_of_settled hzero _), ledBy_of_settled rfl offset⟩
  | @unwrap kept width _ _ hsolid hkept =>
      have hzero := hsettled fun _ => indentAt_of_solid hsolid.of_drop
      cases kept with
      | none => exact ⟨ihnext.1, ledBy_of_settled hzero offset⟩
      | some bounds =>
          have hargument := (hinner bounds rfl).settled hencoded fun _ =>
            indentAt_of_solid (hkept bounds rfl).solid.of_drop
          refine ⟨(ihinner bounds rfl).1.append ihnext.1 fun move _ => joins_of_settled hzero move,
            ledBy_of_settled ?_ offset⟩
          change takenBack (movesBetween _ _ _ _ ++ _) = 0
          rw [takenBack_append _ hzero, hargument]

theorem Tidy.of_append {front rest : List Move} (h : Tidy bytes (front ++ rest)) :
    Tidy bytes rest := by
  induction front with
  | nil => exact h
  | cons move front ih =>
      apply ih
      cases h with
      | keep _ _ _ _ h | comment _ h | follow _ _ _ _ h => exact h

theorem exists_keep_of_moves {front rest : List Move}
    (hmoves : moves options content = front ++ .comment comment (some count) :: rest)
    (hpos : 0 < count) :
    ∃ before start, front = before ++ [.keep start comment] ∧ Cut (Text.bytes content) start ∧
      Cut (Text.bytes content) (comment - count) ∧ Cut (Text.bytes content) comment ∧
      start + count ≤ comment := by
  obtain ⟨htidy, htaken⟩ := tidy_moves options content
  have hchain : (moves options content).IsChain Joins :=
    (Scanned.start.joined (Text.encoded_bytes content)).1
  rw [hmoves] at hchain
  rw [hmoves] at htidy htaken
  rcases List.eq_nil_or_concat front with rfl | ⟨before, move, rfl⟩
  · -- At the start of the content nothing is taken back.
    rw [List.nil_append, takenBack] at htaken
    omega
  · rw [List.concat_eq_append, List.append_assoc, List.singleton_append] at htidy hchain
    obtain ⟨start, rfl⟩ := (List.isChain_append_cons_cons.1 hchain).2.1 comment count rfl hpos
    cases htidy.of_append with
    | keep hstart hstop hall hle _ =>
        exact ⟨before, start, List.concat_eq_append, hstart, hstop, hall, hle⟩

/-! ## Comments that a run comes to -/

/-- A run comes to a comment of a file, the number of the file being `id`: it has entered
the file, which is not open, and performed the moves in front of the comment, and made a
flat source by them. -/
inductive Reaches (files : FileSet) (options : Options) (main : String) :
    (path content : String) → (id comment : Nat) → (indentation : Option Nat) → Flat → Prop where
  | comment {limit : Nat} {opened : List String} {flat middle : Flat} {path content : String}
      {front rest : List Move} {comment : Nat} {indentation : Option Nat}
      (hentered : Entered files options main ⟨limit + 1, opened, flat, path⟩)
      (hopen : path ∉ opened) (hread : files.read path = .ok content)
      (hmoves : moves options content = front ++ .comment comment indentation :: rest)
      (hfront : front.foldlM
        (perform files (expandFile files options limit (path :: opened)) path
          (flat.enter path content).2 content) (flat.enter path content).1 = .ok middle) :
      Reaches files options main path content (flat.enter path content).2 comment indentation
        middle

/-- A range of a file stands at the end of a flat source, and taking back as many bytes
leaves what came before it. -/
structure TakenBack (content : String) (id start stop : Nat) (flat after : Flat) : Prop where
  entries : flat.entries = after.entries ++ provenances id start stop
  text : flat.textBytes = after.textBytes ++ cutOut content start stop
  files : after.files = flat.files
  enough : stop - start ≤ flat.textBytes.length
  boundary : Text.isBoundary flat.text (flat.textBytes.length - (stop - start)) = true
  retract : flat.retract (stop - start) = .ok after

/-- What has just been kept can be taken back from its end. -/
theorem exists_takenBack {earlier : Flat} (haligned : Aligned earlier)
    (hkeep : earlier.keep id content start comment = .ok middle)
    (hstart : Cut (Text.bytes content) start) (hcut : Cut (Text.bytes content) (comment - count))
    (hall : Cut (Text.bytes content) comment) (hle : start + count ≤ comment) :
    ∃ after, TakenBack content id (comment - count) comment middle after := by
  obtain ⟨whole, after, hwhole, hretract, hpart⟩ := keep_retract haligned id hstart hcut hall hle
  obtain rfl := Except.ok.inj (hkeep.symm.trans hwhole)
  obtain ⟨hfiles, hbytes, hentries⟩ := keep_eq_ok hkeep
  obtain ⟨hfiles', hbytes', hentries'⟩ := keep_eq_ok hpart
  have hless : start ≤ comment - count := by omega
  have hwidth : comment - (comment - count) = count := by omega
  refine ⟨after, ?_, ?_, hfiles'.trans hfiles.symm, ?_, ?_, ?_⟩
  · rw [hentries, hentries', List.append_assoc, provenances_append id hless (Nat.sub_le _ _)]
  · rw [hbytes, hbytes', List.append_assoc, cutOut_append content hless (Nat.sub_le _ _)]
  · rw [hwidth]
    exact (retract_eq_ok hretract).1
  · rw [hwidth]
    exact isBoundary_of_retract_eq_ok hretract
  · rw [hwidth]
    exact hretract

theorem takenBack_self (haligned : Aligned flat) (content : String) (id comment : Nat) :
    TakenBack content id comment comment flat flat := by
  have hretract := retract_zero haligned
  rw [← Nat.sub_self comment] at hretract
  refine ⟨?_, ?_, rfl, (retract_eq_ok hretract).1, isBoundary_of_retract_eq_ok hretract, hretract⟩
  · rw [provenances, Nat.sub_self]
    exact (List.append_nil _).symm
  · rw [cutOut, Nat.sub_self]
    exact (List.append_nil _).symm

theorem Reaches.aligned (h : Reaches files options main path content id comment indentation flat) :
    Aligned flat := by
  cases h with
  | comment hentered hopen hread hmoves hfront =>
      have hentry := hentered.aligned.enter path content
      exact foldlM_aligned hentry hfront

theorem Reaches.registered
    (h : Reaches files options main path content id comment indentation flat) :
    ∃ copy, flat.files[id]? = some copy ∧ copy.path = path := by
  cases h with
  | @comment limit opened before _ path content front rest comment indentation _ _ _ _ hfront =>
      obtain ⟨-, -, -, ⟨copy, hcopy, hpath⟩, -⟩ := enter_spec before path content
      exact ⟨copy, getElem?_files_of_grown (foldlM_grown expandFile_grown hfront) hcopy, hpath⟩

theorem Reaches.commentAt
    (h : Reaches files options main path content id comment indentation flat) :
    comment < (Text.bytes content).length ∧ ∃ width,
      CommentAt options ((Text.bytes content).take comment).reverse
        ((Text.bytes content).drop comment) indentation width := by
  cases h with
  | comment hentered hopen hread hmoves hfront =>
      apply commentAt_of_mem
      rw [hmoves]
      exact List.mem_append_right _ List.mem_cons_self

theorem Reaches.exists_takenBack
    (h : Reaches files options main path content id comment (some count) flat) :
    ∃ after, TakenBack content id (comment - count) comment flat after := by
  rcases Nat.eq_zero_or_pos count with rfl | hpos
  · exact ⟨flat, takenBack_self h.aligned content id comment⟩
  cases h with
  | comment hentered hopen hread hmoves hfront =>
      obtain ⟨before, start, rfl, hstart, hcut, hall, hle⟩ := exists_keep_of_moves hmoves hpos
      rw [List.foldlM_append] at hfront
      obtain ⟨earlier, hearlier, hlast⟩ := Results.bind_eq_ok.1 hfront
      rw [List.foldlM_cons] at hlast
      obtain ⟨kept, hkept, hlast⟩ := Results.bind_eq_ok.1 hlast
      obtain rfl := Results.pure_eq_ok.1 hlast
      have haligned := foldlM_aligned (hentered.aligned.enter path content) hearlier
      exact Flat.exists_takenBack haligned (Results.mapError_eq_ok.1 hkept) hstart hcut hall hle

/-- Where a run comes to a comment whose line is blank before it, the flat source ends in
that part of the line, each of its bytes under its own offset in the file, and moving over
the comment takes back exactly this. Any other comment takes nothing back. -/
theorem retracts_indentation
    (h : Reaches files options main path content id comment indentation flat) :
    (∃ copy, flat.files[id]? = some copy ∧ copy.path = path) ∧
      ∃ start after, LineBegins (Text.bytes content) start comment ∧
        (∀ enter, perform files enter path id content flat (.comment comment indentation) =
          .ok after) ∧
        if (cutOut content start comment).all isInlineBlank then
          indentation = some (comment - start) ∧ TakenBack content id start comment flat after
        else indentation = none ∧ after = flat := by
  obtain ⟨hlt, width, hcomment⟩ := h.commentAt
  have hle := Nat.le_of_lt hlt
  have hline := lineBegins_frontWidth hle
  have hindentation := hline.indentation_eq hle hcomment
  by_cases hblank : (cutOut content (comment - frontWidth (Text.bytes content) comment) comment).all
      isInlineBlank = true
  · rw [if_pos hblank] at hindentation
    subst hindentation
    obtain ⟨after, hafter⟩ := h.exists_takenBack
    rw [Nat.sub_sub_self hline.le] at hafter
    refine ⟨h.registered, _, after, hline, fun enter => ?_, ?_⟩
    · rw [perform, hafter.retract, Results.mapError_ok]
    · rw [if_pos hblank]
      exact ⟨rfl, hafter⟩
  · rw [if_neg hblank] at hindentation
    subst hindentation
    refine ⟨h.registered, _, flat, hline, fun enter => rfl, ?_⟩
    rw [if_neg hblank]
    exact ⟨rfl, rfl⟩

/-- A file that starts with an indented comment, included behind the indentation of its
command, in an argument that stays. -/
def indentedMain : String := "x\n  \\added\x7b\n  % a\n  \\input\x7bs\x7d\x7d"

def indentedPart : String := "\t% b\n\\added\x7bc\n \t% d\n\x7de"

def indentedFiles : MemoryFiles :=
  .ofList "/" [("main.tex", indentedMain), ("s.tex", indentedPart)]

/-- What the main file adds before the inclusion. -/
def indentedFront : Flat where
  text := "x\n  \n  "
  files := #[⟨"/main.tex", indentedMain⟩]
  origins := (provenances 0 0 4 ++ provenances 0 11 12 ++ provenances 0 18 20).toArray

/-- And what there is at the last comment of the file that is included. -/
def indentedMiddle : Flat where
  text := "x\n  \n  c\n \t"
  files := #[⟨"/main.tex", indentedMain⟩, ⟨"/s.tex", indentedPart⟩]
  origins := (provenances 0 0 4 ++ provenances 0 11 12 ++ provenances 0 18 20 ++
    provenances 1 12 16).toArray

theorem entered_indentedPart : Entered indentedFiles.toFileSet .standard "main.tex"
    ⟨1, ["/main.tex"], indentedFront, "/s.tex"⟩ := by
  have hmain : findFile indentedFiles.toFileSet "main.tex" none = .ok "/main.tex" := by
    decide +kernel
  have hread : indentedFiles.toFileSet.read "/main.tex" = .ok indentedMain := by decide +kernel
  have hmoves : moves .standard indentedMain =
      [.keep 0 4, .keep 11 14, .comment 14 (some 2), .keep 18 20] ++ .follow 27 28 :: [] := by
    decide +kernel
  have hname : Text.slice? indentedMain 27 28 = some "s" := by decide +kernel
  exact ⟨"/main.tex", hmain, .single
    (.follow (by decide) hread hmoves (by decide +kernel) hname (by decide +kernel))⟩

theorem reaches_indentedPart : Reaches indentedFiles.toFileSet .standard "main.tex" "/s.tex"
    indentedPart 1 16 (some 2) indentedMiddle := by
  have hread : indentedFiles.toFileSet.read "/s.tex" = .ok indentedPart := by decide +kernel
  have hmoves : moves .standard indentedPart =
      [.keep 0 1, .comment 1 (some 1), .keep 12 16] ++ .comment 16 (some 2) :: [.keep 21 22] := by
    decide +kernel
  have hfront : [Move.keep 0 1, .comment 1 (some 1), .keep 12 16].foldlM
      (perform indentedFiles.toFileSet
        (expandFile indentedFiles.toFileSet .standard 0 ["/s.tex", "/main.tex"]) "/s.tex"
        (indentedFront.enter "/s.tex" indentedPart).2 indentedPart)
      (indentedFront.enter "/s.tex" indentedPart).1 = .ok indentedMiddle := by
    decide +kernel
  have hid : (indentedFront.enter "/s.tex" indentedPart).2 = 1 := by decide +kernel
  have hreached := Reaches.comment entered_indentedPart (by decide) hread hmoves hfront
  rwa [hid] at hreached

theorem lineBegins_indentedPart : LineBegins (Text.bytes indentedPart) 14 16 where
  le := by decide
  starts := by decide +kernel
  unbroken k hk hlt := by
    have hall : ∀ k < 16, 14 ≤ k → (Text.bytes indentedPart)[k]? ≠ some lineBreak := by
      decide +kernel
    exact hall k hlt hk

/-- The comment in the argument takes back the blank and the tab in front of it. -/
theorem retracts_indentedPart :
    Reaches indentedFiles.toFileSet .standard "main.tex" "/s.tex" indentedPart 1 16 (some 2)
        indentedMiddle ∧
      ∃ after, TakenBack indentedPart 1 14 16 indentedMiddle after := by
  obtain ⟨-, start, after, hstart, -, htaken⟩ := retracts_indentation reaches_indentedPart
  obtain rfl := hstart.unique lineBegins_indentedPart
  rw [if_pos (by decide +kernel)] at htaken
  exact ⟨reaches_indentedPart, after, htaken.2⟩

end LatexOrigins.Flat
