import LatexOrigins.Proofs.Flat.Run
import LatexOrigins.Proofs.Flat.Settled
import Mathlib.Data.List.Forall2

/-!
# Files that are expanded again

Settled moves only append, so what an expansion finds stays in front of what it adds.
What it adds depends on the file alone: the pieces that are kept are the same each time,
the names that are followed lead to the same files, and a file keeps its number. So each
time a run expands a file it appends the same block, whatever stands before it and
whichever files are open around it.
-/

namespace LatexOrigins.Flat

open Markup

/-- Some bytes of a flat source, each with its entry in the table. -/
structure Block where
  bytes : List UInt8
  entries : List (Option Provenance)

namespace Block

def empty : Block := ⟨[], []⟩

def append (block other : Block) : Block :=
  ⟨block.bytes ++ other.bytes, block.entries ++ other.entries⟩

def piece (content : String) (id start stop : Nat) : Block :=
  ⟨cutOut content start stop, provenances id start stop⟩

end Block

/-- A flat source is another one with a block appended to its text and to its table. Files
that are registered in it stay registered. -/
structure Appended (flat flat' : Flat) (block : Block) : Prop where
  bytes : flat'.textBytes = flat.textBytes ++ block.bytes
  entries : flat'.entries = flat.entries ++ block.entries
  files : flat.files.toList <+: flat'.files.toList

variable {files : FileSet} {options : Options} {main path content : String}
  {opened opened' : List String} {limit limit' id : Nat}
  {flat flat' other other' final middle : Flat} {block more : Block} {entry : Entry}

namespace Appended

theorem refl (flat : Flat) : Appended flat flat .empty :=
  ⟨(List.append_nil _).symm, (List.append_nil _).symm, List.prefix_rfl⟩

theorem append (h : Appended flat middle block) (hmore : Appended middle flat' more) :
    Appended flat flat' (block.append more) where
  bytes := by rw [hmore.bytes, h.bytes, List.append_assoc, Block.append]
  entries := by rw [hmore.entries, h.entries, List.append_assoc, Block.append]
  files := h.files.trans hmore.files

theorem keep {start stop : Nat} (h : flat.keep id content start stop = .ok flat') :
    Appended flat flat' (.piece content id start stop) := by
  obtain ⟨hfiles, hbytes, hentries⟩ := keep_eq_ok h
  exact ⟨hbytes, hentries, hfiles ▸ List.prefix_rfl⟩

theorem unique (h : Appended flat flat' block) (hmore : Appended flat flat' more) :
    block = more := by
  have hbytes := List.append_cancel_left (h.bytes.symm.trans hmore.bytes)
  have hentries := List.append_cancel_left (h.entries.symm.trans hmore.entries)
  cases block
  cases more
  congr

theorem of_enter (h : Appended (flat.enter path content).1 flat' block) :
    Appended flat flat' block := by
  obtain ⟨hfiles, htext, horigins, -, -⟩ := enter_spec flat path content
  refine ⟨?_, ?_, hfiles.trans h.files⟩
  · rw [h.bytes, textBytes, htext]
  · rw [h.entries, Flat.entries, horigins]

end Appended

theorem Block.piece_append (content : String) (id : Nat) {a b c : Nat} (hab : a ≤ b)
    (hbc : b ≤ c) : (piece content id a b).append (piece content id b c) = piece content id a c := by
  simp only [append, piece, cutOut_append content hab hbc, provenances_append id hab hbc]

/-! ## Numbers of files -/

theorem idOf?_eq (flat : Flat) (path : String) :
    flat.idOf? path = flat.files.toList.findIdx? fun copy => copy.path = path := by
  rw [← List.findIdx?_toArray, Array.toArray_toList]
  rfl

theorem idOf?_of_grown (h : flat.idOf? path = some id)
    (hgrown : flat.files.toList <+: flat'.files.toList) : flat'.idOf? path = some id := by
  rw [idOf?_eq] at h ⊢
  exact hgrown.findIdx?_eq_some h

theorem idOf?_enter (flat : Flat) (path content : String) :
    (flat.enter path content).1.idOf? path = some (flat.enter path content).2 := by
  unfold enter
  split
  · next id hid => exact hid
  · next hnone =>
    rw [idOf?] at hnone
    rw [idOf?, addFile, Array.findIdx?_push, hnone]
    simp

/-! ## Two expansions of one file -/

/-- Two ways of entering files append the same block for each file, as long as they number
files as `final` does. -/
def Agree (final : Flat) (enter enter' : Flat → String → Except LoadError Flat) : Prop :=
  ∀ ⦃inner inner' result result' target⦄, enter inner target = .ok result →
    enter' inner' target = .ok result' → Aligned inner → Aligned inner' →
    result.files.toList <+: final.files.toList → result'.files.toList <+: final.files.toList →
    ∃ block, Appended inner result block ∧ Appended inner' result' block

theorem perform_agree {enter enter' : Flat → String → Except LoadError Flat} {move : Move}
    (henter : Agree final enter enter') (hmove : Clean content move) (hflat : Aligned flat)
    (hother : Aligned other) (h : perform files enter path id content flat move = .ok flat')
    (h' : perform files enter' path id content other move = .ok other')
    (hfinal : flat'.files.toList <+: final.files.toList)
    (hfinal' : other'.files.toList <+: final.files.toList) :
    ∃ block, Appended flat flat' block ∧ Appended other other' block := by
  cases hmove with
  | @keep start stop =>
      exact ⟨.piece content id start stop, .keep (Results.mapError_eq_ok.1 h),
        .keep (Results.mapError_eq_ok.1 h')⟩
  | comment =>
      obtain rfl := Except.ok.inj h
      obtain rfl := Except.ok.inj h'
      exact ⟨.empty, .refl _, .refl _⟩
  | follow =>
      obtain ⟨name, target, hname, htarget, hexpand⟩ := perform_follow_eq_ok h
      obtain ⟨name', target', hname', htarget', hexpand'⟩ := perform_follow_eq_ok h'
      obtain rfl := Option.some.inj (hname.symm.trans hname')
      obtain rfl := Except.ok.inj (htarget.symm.trans htarget')
      exact henter hexpand hexpand' hflat hother hfinal hfinal'

theorem foldlM_agree {moves : List Move}
    (henter : Agree final (expandFile files options limit opened)
      (expandFile files options limit' opened'))
    (hmoves : ∀ move ∈ moves, Clean content move) (hflat : Aligned flat) (hother : Aligned other)
    (h : moves.foldlM (perform files (expandFile files options limit opened) path id content)
      flat = .ok flat')
    (h' : moves.foldlM (perform files (expandFile files options limit' opened') path id content)
      other = .ok other')
    (hfinal : flat'.files.toList <+: final.files.toList)
    (hfinal' : other'.files.toList <+: final.files.toList) :
    ∃ block, Appended flat flat' block ∧ Appended other other' block := by
  induction moves generalizing flat other with
  | nil =>
      obtain rfl := Results.pure_eq_ok.1 h
      obtain rfl := Results.pure_eq_ok.1 h'
      exact ⟨.empty, .refl _, .refl _⟩
  | cons move moves ih =>
      rw [List.foldlM_cons] at h h'
      obtain ⟨middle, hmiddle, h⟩ := Results.bind_eq_ok.1 h
      obtain ⟨middle', hmiddle', h'⟩ := Results.bind_eq_ok.1 h'
      obtain ⟨hmove, hmoves⟩ := List.forall_mem_cons.1 hmoves
      have hgrown := (foldlM_grown expandFile_grown h).trans hfinal
      have hgrown' := (foldlM_grown expandFile_grown h').trans hfinal'
      obtain ⟨block, hblock, hblock'⟩ :=
        perform_agree henter hmove hflat hother hmiddle hmiddle' hgrown hgrown'
      obtain ⟨more, hmore, hmore'⟩ := ih hmoves (perform_aligned expandFile_aligned hflat hmiddle)
        (perform_aligned expandFile_aligned hother hmiddle') h h'
      exact ⟨block.append more, hblock.append hmore, hblock'.append hmore'⟩

/-- Two expansions of a file append the same block, if they number files alike. -/
theorem expandFile_agree (final : Flat) (limit limit' : Nat) (opened opened' : List String) :
    Agree final (expandFile files options limit opened)
      (expandFile files options limit' opened') := by
  intro flat other flat' other' path h h' hflat hother hfinal hfinal'
  induction limit generalizing limit' opened opened' flat flat' other other' path with
  | zero => exact absurd h expandFile_zero_ne_ok
  | succ limit ih =>
      obtain ⟨hopen, content, _, -, hread, -⟩ := expandFile_eq_ok h
      obtain ⟨hopen', content', depth, rfl, hread', -⟩ := expandFile_eq_ok h'
      obtain rfl := Except.ok.inj (hread.symm.trans hread')
      obtain ⟨htidy, -⟩ := tidy_moves options content
      rw [expandFile_settled hopen hread hflat] at h
      rw [expandFile_settled hopen' hread hother] at h'
      -- The file has one number in both, that under which its path is registered in the end.
      have hgrown := (foldlM_grown expandFile_grown h).trans hfinal
      have hgrown' := (foldlM_grown expandFile_grown h').trans hfinal'
      have hid := idOf?_of_grown (idOf?_enter flat path content) hgrown
      have hid' := idOf?_of_grown (idOf?_enter other path content) hgrown'
      rw [Option.some.inj (hid'.symm.trans hid)] at h'
      have hagree : Agree final (expandFile files options limit (path :: opened))
          (expandFile files options depth (path :: opened')) :=
        fun _ _ _ _ _ hresult hresult' => ih _ _ _ hresult hresult'
      obtain ⟨block, hblock, hblock'⟩ := foldlM_agree hagree htidy.clean (hflat.enter path content)
        (hother.enter path content) h h' hfinal hfinal'
      exact ⟨block, hblock.of_enter, hblock'.of_enter⟩

theorem foldlM_appended {moves : List Move} (hmoves : ∀ move ∈ moves, Clean content move)
    (hflat : Aligned flat)
    (h : moves.foldlM (perform files (expandFile files options limit opened) path id content)
      flat = .ok flat') : ∃ block, Appended flat flat' block := by
  obtain ⟨block, hblock, -⟩ := foldlM_agree (expandFile_agree flat' limit limit opened opened)
    hmoves hflat hflat h h List.prefix_rfl List.prefix_rfl
  exact ⟨block, hblock⟩

/-! ## Runs -/

theorem Leads.aligned {next : Entry} (h : Leads files options entry next)
    (hentry : Aligned entry.flat) : Aligned next.flat := by
  cases h with
  | follow hopen hread hmoves hfront hname htarget =>
      exact foldlM_aligned (hentry.enter _ _) hfront

theorem Entered.aligned (h : Entered files options main entry) : Aligned entry.flat :=
  h.induct (fun _ _ => aligned_empty) fun hleads hentry => hleads.aligned hentry

/-- Each expansion that takes place in a run that succeeds appends a block to what it
finds, and every other expansion of that file in the run appends the same block. -/
theorem expand_repeats (h : expand files options main = .ok flat) :
    ∀ entry, Entered files options main entry →
      ∃ after block, entry.expand files options = .ok after ∧ Appended entry.flat after block ∧
        ∀ other, Entered files options main other → other.path = entry.path →
          ∃ after', other.expand files options = .ok after' ∧
            Appended other.flat after' block := by
  intro entry hentry
  obtain ⟨after, hafter, hfinal⟩ := hentry.exists_expand h
  have hagree {other : Entry} {after' : Flat} (hother : Entered files options main other)
      (hpath : other.path = entry.path) (hafter' : other.expand files options = .ok after')
      (hfinal' : after'.files.toList <+: flat.files.toList) :
      ∃ block, Appended entry.flat after block ∧ Appended other.flat after' block := by
    rw [Entry.expand, hpath] at hafter'
    exact expandFile_agree flat _ _ _ _ hafter hafter' hentry.aligned hother.aligned hfinal hfinal'
  obtain ⟨block, hblock, -⟩ := hagree hentry rfl hafter hfinal
  refine ⟨after, block, hafter, hblock, fun other hother hpath => ?_⟩
  obtain ⟨after', hafter', hfinal'⟩ := hother.exists_expand h
  obtain ⟨same, hsame, hsame'⟩ := hagree hother hpath hafter' hfinal'
  obtain rfl := hblock.unique hsame
  exact ⟨after', hafter', hsame'⟩

/-- A file that is included twice, once by the main file and once by another. -/
def sharedFiles : MemoryFiles :=
  .ofList "/" [("main.tex", "\\input\x7bs\x7d\\input\x7bt\x7d"), ("t.tex", "(\\input\x7bs\x7d)"),
    ("s.tex", "  % c\nb")]

def sharedMain : FileCopy := ⟨"/main.tex", "\\input\x7bs\x7d\\input\x7bt\x7d"⟩

def sharedPart : FileCopy := ⟨"/s.tex", "  % c\nb"⟩

def sharedOther : FileCopy := ⟨"/t.tex", "(\\input\x7bs\x7d)"⟩

def sharedFlat : Flat where
  text := "b(b)"
  files := #[sharedMain, sharedPart, sharedOther]
  origins := #[some ⟨1, 6⟩, some ⟨2, 0⟩, some ⟨1, 6⟩, some ⟨2, 10⟩]

/-- The shared file is entered from the main file, on a flat source that holds nothing yet. -/
def sharedFirst : Entry := ⟨2, ["/main.tex"], ⟨"", #[sharedMain], #[]⟩, "/s.tex"⟩

/-- The shared file is entered again, from a file that the main file includes. -/
def sharedAgain : Entry where
  limit := 1
  opened := ["/t.tex", "/main.tex"]
  flat := ⟨"b(", #[sharedMain, sharedPart, sharedOther], #[some ⟨1, 6⟩, some ⟨2, 0⟩]⟩
  path := "/s.tex"

theorem findFile_sharedMain :
    findFile sharedFiles.toFileSet "main.tex" none = .ok "/main.tex" := by
  decide +kernel

theorem read_sharedMain :
    sharedFiles.toFileSet.read "/main.tex" = .ok sharedMain.content := by
  decide +kernel

theorem entered_sharedFirst : Entered sharedFiles.toFileSet .standard "main.tex" sharedFirst := by
  have hmoves : moves .standard sharedMain.content = [] ++ .follow 7 8 :: [.follow 16 17] := by
    decide +kernel
  have hname : Text.slice? sharedMain.content 7 8 = some "s" := by decide +kernel
  exact ⟨"/main.tex", findFile_sharedMain, .single
    (.follow (by decide) read_sharedMain hmoves (by decide +kernel) hname (by decide +kernel))⟩

theorem entered_sharedAgain : Entered sharedFiles.toFileSet .standard "main.tex" sharedAgain := by
  have hmoves : moves .standard sharedMain.content = [.follow 7 8] ++ .follow 16 17 :: [] := by
    decide +kernel
  have hname : Text.slice? sharedMain.content 16 17 = some "t" := by decide +kernel
  have hmiddle : [Move.follow 7 8].foldlM
      (perform sharedFiles.toFileSet
        (expandFile sharedFiles.toFileSet .standard 2 ["/main.tex"]) "/main.tex"
        (empty.enter "/main.tex" sharedMain.content).2 sharedMain.content)
      (empty.enter "/main.tex" sharedMain.content).1 =
        .ok ⟨"b", #[sharedMain, sharedPart], #[some ⟨1, 6⟩]⟩ := by
    decide +kernel
  have hother : sharedFiles.toFileSet.read "/t.tex" = .ok sharedOther.content := by
    decide +kernel
  have hnext : moves .standard sharedOther.content =
      [.keep 0 1] ++ .follow 8 9 :: [.keep 10 11] := by
    decide +kernel
  have hagain : Text.slice? sharedOther.content 8 9 = some "s" := by decide +kernel
  exact ⟨"/main.tex", findFile_sharedMain, .head
    (.follow (by decide) read_sharedMain hmoves hmiddle hname (by decide +kernel))
    (.single (.follow (by decide) hother hnext (by decide +kernel) hagain (by decide +kernel)))⟩

/-- The file that is included twice has the same block both times. -/
theorem repeats_sharedFlat :
    expand sharedFiles.toFileSet .standard "main.tex" = .ok sharedFlat ∧
      Entered sharedFiles.toFileSet .standard "main.tex" sharedFirst ∧
      Entered sharedFiles.toFileSet .standard "main.tex" sharedAgain ∧
      ∃ after after' block,
        sharedFirst.expand sharedFiles.toFileSet .standard = .ok after ∧
        sharedAgain.expand sharedFiles.toFileSet .standard = .ok after' ∧
        Appended sharedFirst.flat after block ∧ Appended sharedAgain.flat after' block := by
  have hexpand : expand sharedFiles.toFileSet .standard "main.tex" = .ok sharedFlat := by
    decide +kernel
  obtain ⟨after, block, hafter, hblock, hothers⟩ :=
    expand_repeats hexpand sharedFirst entered_sharedFirst
  obtain ⟨after', hafter', hagain⟩ := hothers sharedAgain entered_sharedAgain rfl
  exact ⟨hexpand, entered_sharedFirst, entered_sharedAgain, after, after', block, hafter, hafter',
    hblock, hagain⟩

end LatexOrigins.Flat
