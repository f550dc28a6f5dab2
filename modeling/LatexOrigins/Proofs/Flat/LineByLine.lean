import LatexOrigins.Proofs.Flat.KeptText
import LatexOrigins.Proofs.Flat.Total
import Mathlib.Data.List.Forall2

/-!
# The scan reads line by line

What the scan emits from the start of a line on is what stays of that line, followed by what
it emits from the start of the next line on, or behind the paused region that begins there.
So flattening a file in which only comments mean something is reading it line by line.
-/

namespace LatexOrigins.Flat

open Markup

variable {options : Options} {bytes l : List UInt8} {offset n : Nat}

/-! ## Whole lines -/

theorem restOfLine_before (hstarts : StartsLine bytes offset)
    (hn : n ≤ (restOfLine (bytes.drop offset)).length) :
    restOfLine (bytes.take (offset + n)).reverse =
      ((restOfLine (bytes.drop offset)).take n).reverse := by
  have hempty : restOfLine (bytes.take offset).reverse = [] := by
    cases offset with
    | zero => rfl
    | succ k =>
        have hbreak := hstarts.resolve_left (Nat.succ_ne_zero k)
        rw [Nat.add_sub_cancel] at hbreak
        rw [reverse_take_succ hbreak]
        rfl
  have hline : ∀ b ∈ ((restOfLine (bytes.drop offset)).take n).reverse, b ≠ lineBreak := by
    intro b hb
    have hinside := List.mem_of_mem_take (List.mem_reverse.1 hb)
    exact of_decide_eq_true (List.all_eq_true.1 List.all_takeWhile b hinside)
  rw [← reverse_take_add, ← take_restOfLine hn, restOfLine,
    List.takeWhile_append_of_pos fun b hb => decide_eq_true (hline b hb), ← restOfLine, hempty,
    List.append_nil]

/-- Where reading goes on at the start of a line: there, or behind the paused region that
the line stands in. -/
def resumeAt (options : Options) (bytes : List UInt8) (offset : Nat) : Mode → Nat
  | .normal => offset
  | .paused => offset + pausedWidth (Text.bytes options.continueMarker) (bytes.drop offset)

theorem percent_of_commentStart
    (hstart : commentStart? (restOfLine (bytes.drop offset)) = some n) :
    bytes[offset + n]? = some percent ∧ n < (restOfLine (bytes.drop offset)).length := by
  have hbyte := getElem?_commentStart hstart
  have hprefix : restOfLine (bytes.drop offset) <+: bytes.drop offset := List.takeWhile_prefix _
  have hlt := lt_length hbyte
  have hinside := List.prefix_iff_getElem?.1 hprefix n hlt
  rw [List.getElem?_drop, ← List.getElem?_eq_getElem hlt, hbyte] at hinside
  exact ⟨hinside, hlt⟩

namespace Bare

/-- A line whose comment has something before it stays up to the comment, with its break. -/
theorem emittedFrom_trailing (hbare : Bare options bytes)
    (hstart : commentStart? (restOfLine (bytes.drop offset)) = some n)
    (htrails : ¬ Indented bytes (offset + n)) :
    emittedFrom options bytes offset = List.range' offset n ++
      (List.range' (offset + (restOfLine (bytes.drop offset)).length)
          (lineWidth (bytes.drop offset) - (restOfLine (bytes.drop offset)).length) ++
        emittedFrom options bytes (offset + lineWidth (bytes.drop offset))) := by
  obtain ⟨hpercent, hlt⟩ := percent_of_commentStart hstart
  have htext : KeepsText options bytes offset := by
    apply hbare.keepsText
    intro k hk
    obtain rfl := Option.some.inj (hstart.symm.trans hk)
    exact htrails
  have hcomment : emittedFrom options bytes (offset + n) =
      emittedFrom options bytes (offset + (restOfLine (bytes.drop offset)).length) := by
    obtain ⟨indentation, width, hcomment, hbehind, -⟩ := hbare.emittedFrom_comment hpercent
    cases hcomment with
    | trailing =>
        rw [hbehind, ← List.drop_drop, restOfLine_drop (Nat.le_of_lt hlt), List.length_drop]
        congr 1
        omega
    | alone halone | pause halone => exact absurd halone htrails
  have hline : restOfLine (bytes.drop (offset + (restOfLine (bytes.drop offset)).length)) = [] := by
    rw [← List.drop_drop, restOfLine_drop (Nat.le_refl _), List.drop_length]
  have hnone : commentStart? (restOfLine
      (bytes.drop (offset + (restOfLine (bytes.drop offset)).length))) = none := by
    rw [hline]
    rfl
  have hbreak := hbare.keepsText_of_nil hline
  rw [KeepsText, textWidth_of_none hnone, ← List.drop_drop, lineWidth_drop (Nat.le_refl _),
    Nat.add_assoc, Nat.add_sub_cancel' (restOfLine_le_lineWidth _)] at hbreak
  rw [KeepsText, textWidth_of_some hstart] at htext
  calc emittedFrom options bytes offset
      = List.range' offset n ++ emittedFrom options bytes (offset + n) := htext
    _ = List.range' offset n ++
          emittedFrom options bytes (offset + (restOfLine (bytes.drop offset)).length) := by
        rw [hcomment]
    _ = List.range' offset n ++
          (List.range' (offset + (restOfLine (bytes.drop offset)).length)
              (lineWidth (bytes.drop offset) - (restOfLine (bytes.drop offset)).length) ++
            emittedFrom options bytes (offset + lineWidth (bytes.drop offset))) := by
        rw [hbreak]

/-- A line that holds nothing but a comment goes, and reading goes on behind it or behind
the region that it pauses. -/
theorem emittedFrom_alone (hbare : Bare options bytes) (hstarts : StartsLine bytes offset)
    (hstart : commentStart? (restOfLine (bytes.drop offset)) = some n)
    (halone : Indented bytes (offset + n)) :
    emittedFrom options bytes offset =
      emittedFrom options bytes (resumeAt options bytes (offset + lineWidth (bytes.drop offset))
        (if Text.bytes options.pauseMarker <+: (restOfLine (bytes.drop offset)).drop n then .paused
          else .normal)) := by
  obtain ⟨hpercent, hlt⟩ := percent_of_commentStart hstart
  have hbefore := restOfLine_before hstarts (Nat.le_of_lt hlt)
  have hlength : ((restOfLine (bytes.drop offset)).take n).length = n :=
    List.length_take_of_le (Nat.le_of_lt hlt)
  have hblank : ((restOfLine (bytes.drop offset)).take n).all isInlineBlank = true := by
    rwa [Indented, hbefore, List.all_reverse] at halone
  have hindent : indentAt bytes (offset + n) = n := by
    rw [indentAt_of_indented halone, hbefore, List.length_reverse, hlength]
  have hspan : spanLength isPlain (bytes.drop offset) = n := by
    rw [← List.getElem?_drop] at hpercent
    refine spanLength_eq (fun c hc => ?_) hpercent (by decide)
    rw [← take_restOfLine (Nat.le_of_lt hlt)] at hc
    exact isPlain_of_test rfl rfl c (List.all_eq_true.1 hblank c hc)
  obtain ⟨indentation, width, hcomment, hbehind, htaken⟩ := hbare.emittedFrom_comment hpercent
  have hskipped : emittedFrom options bytes offset =
      emittedFrom options bytes (offset + n + width) := by
    rw [hbare.emittedFrom_span offset, hspan, htaken, hindent, Nat.sub_self, hbehind]
    rfl
  have hline : restOfLine (bytes.drop (offset + n)) = (restOfLine (bytes.drop offset)).drop n := by
    rw [← List.drop_drop, restOfLine_drop (Nat.le_of_lt hlt)]
  have hend : offset + n + lineWidth (bytes.drop (offset + n)) =
      offset + lineWidth (bytes.drop offset) := by
    have hle := restOfLine_le_lineWidth (bytes.drop offset)
    rw [← List.drop_drop, lineWidth_drop (Nat.le_of_lt hlt)]
    omega
  rw [hskipped]
  cases hcomment with
  | trailing htrails => exact absurd halone htrails
  | alone _ hmarker =>
      rw [hline] at hmarker
      rw [if_neg hmarker, hend, resumeAt]
  | pause _ hmarker =>
      rw [hline] at hmarker
      rw [if_pos hmarker, ← Nat.add_assoc, hend, List.drop_drop, hend, resumeAt]

end Bare

/-- The offsets that stay of the line at the front of a text that starts at an offset: some
of its first bytes, with the break. -/
def keptOfLine (offset : Nat) (l : List UInt8) (kept : Option Nat) : List Nat :=
  kept.elim [] fun count => List.range' offset count ++
    List.range' (offset + (restOfLine l).length) (lineWidth l - (restOfLine l).length)

theorem resumeAt_paused (hlt : offset < bytes.length) :
    resumeAt options bytes offset .paused =
      resumeAt options bytes (offset + lineWidth (bytes.drop offset))
        (readLine options .paused (restOfLine (bytes.drop offset))).2 := by
  have hrest : bytes.drop offset ≠ [] := by
    rw [ne_eq, List.drop_eq_nil_iff]
    omega
  rw [resumeAt, pausedWidth, dif_neg hrest, readLine]
  simp only [List.isPrefixOf_iff_prefix]
  split
  · rfl
  · rw [resumeAt, ← Nat.add_assoc, List.drop_drop]
    rfl

namespace Bare

/-- What is emitted from the start of a line on is what stays of that line, and what is
emitted from the next line on, as reading goes on there. -/
theorem emittedFrom_readLine (hbare : Bare options bytes) (hlt : offset < bytes.length)
    (hstarts : StartsLine bytes offset) (mode : Mode) :
    emittedFrom options bytes (resumeAt options bytes offset mode) =
      keptOfLine offset (bytes.drop offset)
          (readLine options mode (restOfLine (bytes.drop offset))).1 ++
        emittedFrom options bytes
          (resumeAt options bytes (offset + lineWidth (bytes.drop offset))
            (readLine options mode (restOfLine (bytes.drop offset))).2) := by
  cases mode with
  | paused =>
      rw [resumeAt_paused hlt]
      rfl
  | normal =>
      cases hstart : commentStart? (restOfLine (bytes.drop offset)) with
      | none =>
          have htext : KeepsText options bytes offset := by
            apply hbare.keepsText
            intro k hk
            rw [hstart] at hk
            cases hk
          have hline : readLine options .normal (restOfLine (bytes.drop offset)) =
              (some (restOfLine (bytes.drop offset)).length, .normal) := by
            rw [readLine, hstart]
          rw [KeepsText, textWidth_of_none hstart] at htext
          rw [hline, keptOfLine, Option.elim_some, List.range'_append_1,
            Nat.add_sub_cancel' (restOfLine_le_lineWidth _)]
          exact htext
      | some start =>
          obtain ⟨-, hinside⟩ := percent_of_commentStart hstart
          have hblank : Indented bytes (offset + start) ↔
              ((restOfLine (bytes.drop offset)).take start).all isInlineBlank = true := by
            rw [Indented, restOfLine_before hstarts (Nat.le_of_lt hinside), List.all_reverse]
          by_cases halone : Indented bytes (offset + start)
          · rw [readLine, hstart]
            simp only [if_pos (hblank.1 halone)]
            exact hbare.emittedFrom_alone hstarts hstart halone
          · rw [readLine, hstart]
            simp only [if_neg (fun h => halone (hblank.2 h))]
            rw [keptOfLine, Option.elim_some, List.append_assoc]
            exact hbare.emittedFrom_trailing hstart halone

end Bare

/-! ## Reading a text -/

theorem readLines_nil (options : Options) (mode : Mode) (offset : Nat) :
    readLines options mode offset [[]] = [] := by
  cases mode with
  | normal | paused => rfl

theorem ne_lineBreak_of_mem (l : List UInt8) : ∀ b ∈ restOfLine l, (b == lineBreak) = false := by
  intro b hb
  have hbyte := of_decide_eq_true (List.all_eq_true.1 List.all_takeWhile b hb)
  exact beq_eq_false_iff_ne.2 hbyte

theorem splitOn_of_break (h : (restOfLine l).length < l.length) :
    l.splitOn lineBreak = restOfLine l :: (l.drop (lineWidth l)).splitOn lineBreak := by
  have hwidth : lineWidth l = (restOfLine l).length + 1 := Nat.min_eq_left h
  have hbreak := drop_eq_cons (lineBreak_of_restOfLine_lt h)
  have hline := take_restOfLine (l := l) (Nat.le_refl _)
  rw [List.take_length] at hline
  calc l.splitOn lineBreak
      = (restOfLine l ++ lineBreak :: l.drop (lineWidth l)).splitOn lineBreak := by
        rw [hwidth, ← hbreak]
        conv => lhs; rw [← List.take_append_drop (restOfLine l).length l, ← hline]
    _ = restOfLine l :: (l.drop (lineWidth l)).splitOn lineBreak :=
        List.splitOnP_append_cons_of_forall_mem (ne_lineBreak_of_mem l) lineBreak
          (beq_self_eq_true lineBreak) _

theorem splitOn_of_last (h : l.length ≤ (restOfLine l).length) :
    l.splitOn lineBreak = [restOfLine l] := by
  have hline := take_restOfLine (l := l) (Nat.le_refl _)
  rw [List.take_length, List.take_of_length_le h] at hline
  have hall := List.splitOnP_eq_singleton (ne_lineBreak_of_mem l)
  rw [hline] at hall ⊢
  exact hall

theorem readLines_splitOn (options : Options) (mode : Mode) (offset : Nat) (l : List UInt8) :
    readLines options mode offset (l.splitOn lineBreak) =
      keptOfLine offset l (readLine options mode (restOfLine l)).1 ++
        readLines options (readLine options mode (restOfLine l)).2 (offset + lineWidth l)
          ((l.drop (lineWidth l)).splitOn lineBreak) := by
  by_cases h : (restOfLine l).length < l.length
  · have hwidth : lineWidth l = (restOfLine l).length + 1 := Nat.min_eq_left h
    have hmore : (l.drop (lineWidth l)).splitOn lineBreak ≠ [] := List.splitOnP_ne_nil _ _
    rw [splitOn_of_break h, readLines]
    simp only [if_neg hmore]
    rw [keptOfLine, hwidth, Nat.add_sub_cancel_left, ← Nat.add_assoc]
    rfl
  · have hwidth : lineWidth l = l.length := Nat.min_eq_right (by omega)
    have hle := spanLength_le (fun b => decide (b ≠ lineBreak)) l
    have hzero : l.length - (restOfLine l).length = 0 := by omega
    rw [splitOn_of_last (Nat.not_lt.1 h), readLines, hwidth, List.drop_length, List.splitOn_nil,
      readLines_nil, keptOfLine, hwidth, hzero]
    rfl

/-- Reading on from the start of a line, line by line, gives what the scan emits from there
on. -/
theorem Bare.readLines_eq (hbare : Bare options bytes) (mode : Mode) (offset : Nat)
    (hstarts : offset < bytes.length → StartsLine bytes offset) :
    readLines options mode offset ((bytes.drop offset).splitOn lineBreak) =
      emittedFrom options bytes (resumeAt options bytes offset mode) := by
  by_cases hlt : offset < bytes.length
  · have hwidth : 0 < lineWidth (bytes.drop offset) := by
      rw [lineWidth, List.length_drop]
      omega
    have hnext : offset + lineWidth (bytes.drop offset) < bytes.length →
        StartsLine bytes (offset + lineWidth (bytes.drop offset)) := by
      intro hinside
      apply (hstarts hlt).behind
      apply startsLine_lineWidth
      rw [List.length_drop]
      omega
    rw [readLines_splitOn, hbare.emittedFrom_readLine hlt (hstarts hlt), List.drop_drop,
      hbare.readLines_eq _ _ hnext]
  · have hend := Nat.not_lt.1 hlt
    have hresume : bytes.length ≤ resumeAt options bytes offset mode := by
      cases mode with
      | normal => exact hend
      | paused => exact Nat.le_trans hend (Nat.le_add_right _ _)
    rw [List.drop_eq_nil_of_le hend, List.splitOn_nil, readLines_nil, emittedFrom_of_le hresume]
termination_by bytes.length - offset

theorem Bare.emitted_eq {content : String} (hbare : Bare options (Text.bytes content)) :
    emitted options content = keptByLines options content :=
  (hbare.readLines_eq .normal 0 fun _ => Or.inl rfl).symm

/-! ## Flattening -/

/-- Some offsets of a content are appended to a flat source: their bytes to the text, and to
the table that they stand in the file with a number. -/
structure Extends (content : String) (id : Nat) (offsets : List Nat) (flat flat' : Flat) :
    Prop where
  files : flat'.files = flat.files
  entries : flat'.entries = flat.entries ++ offsets.map fun offset => some ⟨id, offset⟩
  bytes : flat'.textBytes.map some =
    flat.textBytes.map some ++ offsets.map fun offset => (Text.bytes content)[offset]?

variable {content path main : String} {id : Nat} {flat flat' middle : Flat}
  {offsets others : List Nat} {moves : List Move}

theorem Extends.refl (content : String) (id : Nat) (flat : Flat) :
    Extends content id [] flat flat :=
  ⟨rfl, (List.append_nil _).symm, (List.append_nil _).symm⟩

theorem Extends.append (h : Extends content id offsets flat middle)
    (hothers : Extends content id others middle flat') :
    Extends content id (offsets ++ others) flat flat' where
  files := hothers.files.trans h.files
  entries := by rw [hothers.entries, h.entries, List.append_assoc, List.map_append]
  bytes := by rw [hothers.bytes, h.bytes, List.append_assoc, List.map_append]

theorem map_some_cutOut {start stop : Nat} (hstop : Cut (Text.bytes content) stop) :
    (cutOut content start stop).map some =
      (List.range' start (stop - start)).map fun offset => (Text.bytes content)[offset]? := by
  apply List.ext_getElem
  · rw [List.length_map, List.length_map, length_cutOut hstop, List.length_range']
  · intro k hk hk'
    rw [List.length_map] at hk
    have hinside : k < stop - start := by rwa [length_cutOut hstop] at hk
    rw [List.getElem_map, List.getElem_map, List.getElem_range', Nat.one_mul,
      ← List.getElem?_eq_getElem hk, getElem?_cutOut hinside]

theorem exists_foldlM_of_kept (files : FileSet) (enter : Flat → String → Except LoadError Flat)
    (path : String) (id : Nat) (flat : Flat) (hclean : ∀ move ∈ moves, Clean content move)
    (hkept : ∀ start stop, .follow start stop ∉ moves) :
    ∃ flat', moves.foldlM (perform files enter path id content) flat = .ok flat' ∧
      Extends content id (moves.flatMap offsetsOf) flat flat' := by
  induction moves generalizing flat with
  | nil => exact ⟨flat, rfl, .refl content id flat⟩
  | cons move moves ih =>
      obtain ⟨hmove, hmoves⟩ := List.forall_mem_cons.1 hclean
      have hrest : ∀ start stop, .follow start stop ∉ moves := by
        intro start stop hmem
        exact hkept start stop (List.mem_cons_of_mem _ hmem)
      obtain ⟨middle, hperform, hmiddle⟩ : ∃ middle,
          perform files enter path id content flat move = .ok middle ∧
            Extends content id (offsetsOf move) flat middle := by
        cases hmove with
        | keep hstart hstop hle =>
            obtain ⟨middle, hkeep⟩ := exists_keep flat id hstart hstop hle
            obtain ⟨hfiles, hbytes, hentries⟩ := keep_eq_ok hkeep
            refine ⟨middle, ?_, hfiles, hentries, ?_⟩
            · rw [perform, hkeep]
              rfl
            · rw [hbytes, List.map_append, map_some_cutOut hstop]
              rfl
        | comment => exact ⟨flat, rfl, .refl content id flat⟩
        | follow => exact absurd List.mem_cons_self (hkept _ _)
      obtain ⟨flat', hfold, hflat'⟩ := ih middle hmoves hrest
      refine ⟨flat', ?_, hmiddle.append hflat'⟩
      rw [List.foldlM_cons, hperform]
      exact hfold

theorem mem_of_mem_settle {start stop : Nat} (h : .follow start stop ∈ settle moves) :
    .follow start stop ∈ moves := by
  induction moves with
  | nil => exact h
  | cons move moves ih =>
      cases move with
      | keep | comment =>
          rcases List.mem_cons.1 h with h | h
          · cases h
          · exact List.mem_cons_of_mem _ (ih h)
      | follow =>
          rcases List.mem_cons.1 h with h | h
          · rw [h]
            exact List.mem_cons_self
          · exact List.mem_cons_of_mem _ (ih h)

theorem follow_not_mem (hincludes : options.includeCommands = []) (content : String)
    (start stop : Nat) : .follow start stop ∉ settle (Flat.moves options content) := by
  intro h
  have hmem := mem_of_mem_settle h
  rw [moves_eq] at hmem
  obtain ⟨offset, limit, -, -, hstep⟩ :=
    Scanned.start.exists_of_mem (Text.encoded_bytes content) hmem
  obtain ⟨a, b, width, hfollow, -⟩ := mem_movesAt_follow hstep
  obtain ⟨rest, -, hcontrol⟩ := step_eq_follow hfollow
  obtain ⟨command, g, hcommand, -⟩ := controlStep_eq_follow hcontrol
  rw [hincludes] at hcommand
  cases hcommand

/-- If the options name no command, a file without `\verb` is flattened line by line: the
flat source holds the bytes of the file that stay, in their order, and each has its own
offset. -/
theorem expand_line_by_line {files : MemoryFiles}
    (hpath : findFile files.toFileSet main none = .ok path)
    (hread : files.toFileSet.read path = .ok content) (hincludes : options.includeCommands = [])
    (hrules : options.commandRules = []) (hverb : ¬ Text.bytes "\\verb" <:+: Text.bytes content) :
    ∃ flat, expand files.toFileSet options main = .ok flat ∧ flat.files = #[⟨path, content⟩] ∧
      flat.entries = (keptByLines options content).map (fun offset => some ⟨0, offset⟩) ∧
      flat.textBytes.map some =
        (keptByLines options content).map fun offset => (Text.bytes content)[offset]? := by
  have hbare : Bare options (Text.bytes content) := ⟨hincludes, hrules, hverb⟩
  have hdepth : 0 < files.toFileSet.depth :=
    (withinDepth_nil files).pos List.not_mem_nil (contains_of_findFile hpath)
  obtain ⟨depth, hlimit⟩ : ∃ depth, files.toFileSet.depth = depth + 1 :=
    ⟨files.toFileSet.depth - 1, by omega⟩
  obtain ⟨htidy, -⟩ := tidy_moves options content
  obtain ⟨flat, hfold, hflat⟩ := exists_foldlM_of_kept files.toFileSet
    (expandFile files.toFileSet options depth [path]) path 0 (empty.addFile path content)
    htidy.clean (follow_not_mem hincludes content)
  rw [← emitted, hbare.emitted_eq] at hflat
  refine ⟨flat, ?_, hflat.files, hflat.entries, hflat.bytes⟩
  rw [expand, hpath, Results.ok_bind, hlimit,
    expandFile_settled List.not_mem_nil hread aligned_empty]
  rw [enter_empty]
  exact hfold

/-- An escaped percent sign and one that is not, a line with nothing but a comment, a backslash
that ends a line, and a paused region. -/
def linedMain : String := "a\\% b\\\\% c\n  % d\n\\\n%P\n e\n C\nf%"

def linedFiles : MemoryFiles := .ofList "/" [("main.tex", linedMain)]

def linedOptions : Options := ⟨[], "%P", "C", []⟩

def linedFlat : Flat where
  text := "a\\% b\\\\\n\\\nf"
  files := #[⟨"/main.tex", linedMain⟩]
  origins := (provenances 0 0 7 ++ provenances 0 10 11 ++ provenances 0 17 19 ++
    provenances 0 28 29).toArray

theorem keptByLines_linedFlat :
    expand linedFiles.toFileSet linedOptions "main.tex" = .ok linedFlat ∧
      ¬ Text.bytes "\\verb" <:+: Text.bytes linedMain ∧
      linedFlat.entries =
        (keptByLines linedOptions linedMain).map (fun offset => some ⟨0, offset⟩) ∧
      linedFlat.textBytes.map some =
        (keptByLines linedOptions linedMain).map fun offset => (Text.bytes linedMain)[offset]? := by
  have hexpand : expand linedFiles.toFileSet linedOptions "main.tex" = .ok linedFlat := by
    decide +kernel
  have hpath : findFile linedFiles.toFileSet "main.tex" none = .ok "/main.tex" := by
    decide +kernel
  have hread : linedFiles.toFileSet.read "/main.tex" = .ok linedMain := by decide +kernel
  have hverb : ¬ Text.bytes "\\verb" <:+: Text.bytes linedMain := by decide +kernel
  have hincludes : linedOptions.includeCommands = [] := rfl
  have hrules : linedOptions.commandRules = [] := rfl
  obtain ⟨flat, hflat, -, hentries, hbytes⟩ :=
    expand_line_by_line hpath hread hincludes hrules hverb
  obtain rfl := Except.ok.inj (hflat.symm.trans hexpand)
  exact ⟨hexpand, hverb, hentries, hbytes⟩

end LatexOrigins.Flat
