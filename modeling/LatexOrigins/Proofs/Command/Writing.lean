import LatexOrigins.Command.Outcome
import LatexOrigins.Proofs.Analysis.Matches
import LatexOrigins.Proofs.Document.Total
import LatexOrigins.Proofs.Files.Bounded

/-!
# Commands write all or nothing

What a command writes it writes piece by piece, but it writes nothing before the document
is there, and from then on it does not halt: each piece is appended whatever has been
written before, and no match is a fault. And the document is there, or what is wrong
with the settings, with an inclusion or with a file that cannot be read is reported:
loading meets no fault, as long as the depth is enough for the files that can be read.
-/

namespace LatexOrigins

/-! ## Writing -/

namespace Writing

variable {α : Type} {w v : Writing Unit} {text other before : String}

/-- A computation is done, and has appended a text to whatever was written before. -/
def Writes (w : Writing Unit) (text : String) : Prop :=
  ∀ before, w.run before = (.ok (), before ++ text)

theorem writes_pure : Writes (pure ()) "" := by
  intro before
  rw [String.append_empty]
  rfl

theorem writes_emit (text : String) : Writes (emit text) text := fun _ => rfl

theorem run_seq (h : Writes w text) : (w >>= fun _ => v).run before = v.run (before ++ text) := by
  have hfirst : (ExceptT.run w).run before = (.ok (), before ++ text) := h before
  change (ExceptT.run (w >>= fun _ => v)).run before = _
  rw [ExceptT.run_bind, StateT.run_bind, hfirst]
  rfl

theorem Writes.seq (h : Writes w text) (hother : Writes v other) :
    Writes (w >>= fun _ => v) (text ++ other) := by
  intro before
  rw [run_seq h, hother, String.append_assoc]

theorem writes_forM {l : List α} {f : α → Writing Unit} {g : α → String}
    (h : ∀ a ∈ l, Writes (f a) (g a)) : Writes (l.forM f) (String.join (l.map g)) := by
  induction l with
  | nil => exact writes_pure
  | cons a rest ih =>
      obtain ⟨hfirst, hrest⟩ := List.forall_mem_cons.1 h
      rw [List.map_cons, String.join_cons]
      exact hfirst.seq (ih hrest)

/-- A computation comes to the same as a result: it has appended all of it, or has halted
where the result fails and has appended nothing. -/
structure ComesTo (w : Writing Unit) (result : Except Failure String) : Prop where
  ok : ∀ whole, result = .ok whole → ∀ before, w.run before = (.ok (), before ++ whole)
  error : ∀ failure, result = .error failure → ∀ before, w.run before = (.error failure.halt, before)

theorem Writes.comesTo (h : Writes w text) : ComesTo w (pure text) where
  ok whole hwhole := by
    obtain rfl := Except.ok.inj hwhole
    exact h
  error failure hfailure := by cases hfailure

theorem comesTo_bind {x : Except Failure α} {f : α → Writing Unit} {g : α → Except Failure String}
    (h : ∀ a, x = .ok a → ComesTo (f a) (g a)) : ComesTo (ofResult x >>= f) (x >>= g) := by
  cases x with
  | ok a => exact ⟨(h a rfl).ok, (h a rfl).error⟩
  | error failure =>
      constructor
      · intro whole hwhole
        cases hwhole
      · intro other hother before
        obtain rfl : failure = other := Except.error.inj hother
        rfl

end Writing

open Writing (Writes)

theorem View.writes (tools : Toolkit) (view : View) (d : Document) :
    Writes (view.write tools d) (view.render tools d) := by
  cases view with
  | flatSource | plainText => exact Writing.writes_emit _
  | files => exact Writing.writes_forM fun path _ => Writing.writes_emit (path ++ "\n")
  | record => exact (Writing.writes_emit _).seq (Writing.writes_emit _)

namespace Document

theorem find_ne_fault {d : Document} {m : Matcher} {target : SearchTarget}
    {found : Except Origin.Error Origin} (h : found ∈ d.find m target) (cause : Fault) :
    found ≠ .error (.fault cause) := by
  rw [find_eq_map] at h
  obtain ⟨range, -, rfl⟩ := List.mem_map.1 h
  cases target with
  | source => exact (d.answered_originOfSource (LinedText.not_overruns_offsets _ _ _)).ne_fault cause
  | text => exact (d.answered_originOfText (LinedText.not_overruns_offsets _ _ _)).ne_fault cause

/-- What is written for a match. -/
def foundText (tools : Toolkit) : Except Origin.Error Origin → String
  | .ok origin => tools.compact origin.record.toJson ++ "\n"
  | .error _ => ""

theorem writes_found {tools : Toolkit} {found : Except Origin.Error Origin}
    (h : ∀ cause, found ≠ .error (.fault cause)) :
    Writes (writeFound tools found) (foundText tools found) := by
  cases found with
  | ok origin => exact (Writing.writes_emit _).seq (Writing.writes_emit _)
  | error cause =>
      cases cause with
      | fault cause => exact absurd rfl (h cause)
      | emptyRange | outOfBounds | badAddress | noOrigin | incoherent | fileMismatch | emptyOrigin =>
          exact Writing.writes_pure

theorem listing_eq (tools : Toolkit) (d : Document) (m : Matcher) (target : SearchTarget) :
    d.listing tools m target = String.join ((d.find m target).map (foundText tools)) := by
  rw [listing]
  induction d.find m target with
  | nil => rfl
  | cons found rest ih =>
      rw [List.map_cons, String.join_cons, ← ih]
      cases found with
      | ok origin => exact String.join_cons
      | error cause => exact String.empty_append.symm

theorem writes_listing (tools : Toolkit) (d : Document) (m : Matcher) (target : SearchTarget) :
    Writes (d.writeListing tools m target) (d.listing tools m target) := by
  rw [listing_eq]
  exact Writing.writes_forM fun found hfound => writes_found (find_ne_fault hfound)

end Document

namespace Invocation

variable {tools : Toolkit} {disk : Disk} {i : Invocation}

/-- A command writes all that there is to print, or halts before it has written anything. -/
theorem write_comesTo_output (tools : Toolkit) (disk : Disk) (i : Invocation) :
    Writing.ComesTo (i.write tools disk) (i.output tools disk) := by
  unfold write output
  cases i.command with
  | print view => exact Writing.comesTo_bind fun d _ => (view.writes tools d).comesTo
  | find text target =>
      apply Writing.comesTo_bind
      intro m _
      apply Writing.comesTo_bind
      intro d _
      exact (d.writes_listing tools m target).comesTo

/-! ## What is reported -/

/-- What a command that fails may report: a pattern that does not compile, a main path that
is empty, settings that cannot be read or do not make sense, an inclusion that cannot be
followed, or a file that is there and cannot be read. -/
inductive Reports (i : Invocation) (tools : Toolkit) (disk : Disk) : Failure → Prop where
  | badPattern {text : String} {target : SearchTarget} (hcommand : i.command = .find text target)
      (hpattern : tools.compile? text = none) : Reports i tools disk (.badPattern text)
  | badMain (h : i.main = "") : Reports i tools disk (.badMain i.main)
  | unreadableSettings {path : String} (h : i.settings? = some path) :
      Reports i tools disk (.settings (.unreadableSettings path))
  | badSettings {path text : String} (h : i.settings? = some path)
      (hentry : disk.entry? path = some (.content text)) (hread : tools.settings? text = none) :
      Reports i tools disk (.settings .badSettings)
  | document {cause : LoadError} (h : cause.AtFile (disk.toFileSet (i.rootPath disk))) :
      Reports i tools disk (.document (i.mainPath disk) cause)

theorem Reports.halt_eq {failure : Failure} (h : i.Reports tools disk failure) :
    failure.halt = .failed failure := by
  cases h with
  | badPattern | badMain | unreadableSettings | badSettings => rfl
  | document h =>
      cases h with
      | inclusion h => cases h <;> rfl
      | unreadable => rfl

theorem reports_settings {cause : LoadError}
    (h : Settings.load tools disk i.settings? = .error cause) :
    i.Reports tools disk (.settings cause) := by
  unfold Settings.load at h
  split at h
  · cases h
  · next path hpath =>
    split at h
    · next text hentry =>
      split at h
      · cases h
      · next hread =>
        obtain rfl := Except.error.inj h
        exact .badSettings hpath hentry hread
    · obtain rfl := Except.error.inj h
      exact .unreadableSettings hpath

theorem reports_pattern {text : String} {target : SearchTarget} {failure : Failure}
    (hcommand : i.command = .find text target) (h : tools.pattern text = .error failure) :
    i.Reports tools disk failure := by
  unfold Toolkit.pattern at h
  split at h
  · cases h
  · next hpattern =>
    obtain rfl := Except.error.inj h
    exact .badPattern hcommand hpattern

theorem reports_document (hbounded : disk.Bounded) {failure : Failure}
    (h : i.document tools disk = .error failure) : i.Reports tools disk failure := by
  unfold document at h
  split at h
  · next hmain =>
    obtain rfl : .badMain i.main = failure := Except.error.inj h
    exact .badMain hmain
  · rcases Results.bind_eq_error.1 h with h | ⟨settings, -, h⟩
    · obtain ⟨cause, hcause, rfl⟩ := Results.mapError_eq_error.1 h
      exact reports_settings hcause
    · obtain ⟨cause, hcause, rfl⟩ := Results.mapError_eq_error.1 h
      exact .document (Flat.atFile_of_expand (hbounded _) (Document.expand_of_build_eq_error hcause))

theorem reports_output (hbounded : disk.Bounded) {failure : Failure}
    (h : i.output tools disk = .error failure) : i.Reports tools disk failure := by
  unfold output at h
  split at h
  · rcases Results.bind_eq_error.1 h with h | ⟨d, -, h⟩
    · exact reports_document hbounded h
    · cases h
  · next text target hcommand =>
    rcases Results.bind_eq_error.1 h with h | ⟨m, -, h⟩
    · exact reports_pattern hcommand h
    · rcases Results.bind_eq_error.1 h with h | ⟨d, -, h⟩
      · exact reports_document hbounded h
      · cases h

/-! ## All or nothing -/

theorem output_print {view : View} {d : Document} (hcommand : i.command = .print view)
    (hdocument : i.document tools disk = .ok d) :
    i.output tools disk = .ok (view.render tools d) := by
  rw [output, hcommand]
  simp only [hdocument, Results.ok_bind]
  rfl

/-- How a command runs: it reports a failure and has written nothing, or it is done and has
written all that there is to print. Once the document is there it is done, and once the
pattern compiles and the document is there, so is a search, whatever becomes of the
matches. -/
structure AllOrNothing (i : Invocation) (tools : Toolkit) (disk : Disk) (before : String) :
    Prop where
  ends : (∃ failure, i.output tools disk = .error failure ∧ i.Reports tools disk failure ∧
      (i.write tools disk).run before = (.error (.failed failure), before)) ∨
    ∃ whole, i.output tools disk = .ok whole ∧
      (i.write tools disk).run before = (.ok (), before ++ whole)
  printed : ∀ view d, i.command = .print view → i.document tools disk = .ok d →
    (i.write tools disk).run before = (.ok (), before ++ view.render tools d)
  found : ∀ text target m d, i.command = .find text target → tools.compile? text = some m →
    i.document tools disk = .ok d →
    (i.write tools disk).run before = (.ok (), before ++ d.listing tools m target)

theorem allOrNothing (tools : Toolkit) (hbounded : disk.Bounded) (i : Invocation)
    (before : String) : i.AllOrNothing tools disk before := by
  have hwrite := write_comesTo_output tools disk i
  refine ⟨?_, fun view d hcommand hdocument => ?_, fun text target m d hcommand hm hdocument => ?_⟩
  · cases houtput : i.output tools disk with
    | error failure =>
        have hreports := reports_output hbounded houtput
        have hhalts := hwrite.error failure houtput before
        rw [hreports.halt_eq] at hhalts
        exact Or.inl ⟨failure, rfl, hreports, hhalts⟩
    | ok whole => exact Or.inr ⟨whole, rfl, hwrite.ok whole houtput before⟩
  · exact hwrite.ok _ (output_print hcommand hdocument) before
  · exact hwrite.ok _ (output_find hcommand hm hdocument) before

theorem run_write_badPattern {text : String} {target : SearchTarget}
    (hcommand : i.command = .find text target) (hpattern : tools.compile? text = none)
    (disk : Disk) (before : String) :
    (i.write tools disk).run before = (.error (.failed (.badPattern text)), before) := by
  have houtput : i.output tools disk = .error (.badPattern text) := by
    rw [output, hcommand]
    simp only [Toolkit.pattern_eq_error hpattern]
    rfl
  exact (write_comesTo_output tools disk i).error _ houtput before

/-- Every command writes all or nothing, on every tree of files and on whatever part of a disk
has been examined, whatever compiles the patterns, reads the settings and prints the records.
A pattern that does not compile is reported before that: the report is the same on every disk,
and no path is left to examine. -/
theorem commands_write_all_or_nothing (tools : Toolkit) (i : Invocation) (before : String) :
    (∀ tree : FileTree, i.AllOrNothing tools tree.toDisk before) ∧
      (∀ snapshot : Snapshot, i.AllOrNothing tools snapshot.toDisk before) ∧
      ∀ text target, i.command = .find text target → tools.compile? text = none →
        (∀ disk, (i.write tools disk).run before =
          (.error (.failed (.badPattern text)), before)) ∧
          ∀ snapshot, i.missing? tools snapshot = none := by
  refine ⟨fun tree => allOrNothing tools tree.bounded i before,
    fun snapshot => allOrNothing tools snapshot.bounded i before, ?_⟩
  intro text target hcommand hpattern
  refine ⟨fun disk => run_write_badPattern hcommand hpattern disk before, fun snapshot => ?_⟩
  rw [missing?, run_write_badPattern hcommand hpattern]
  rfl

/-- A main file that includes a file which cannot be read, and a file of its own. -/
def spoiltTree : FileTree :=
  (((FileTree.empty ["d"]).insert "main.tex" (.content "a\\input\x7bb\x7d")).insert "b.tex"
    .unreadable).insert "c.tex" (.content "xyy")

def searching (pattern main : String) : Invocation := ⟨.find pattern .text, main, none, none⟩

/-- The text in front of the inclusion is not written, the matches in another file are, and a
pattern that does not compile is reported whatever there is to read. -/
theorem all_or_nothing_spoiltTree :
    (write .standard spoiltTree.toDisk ⟨.print .flatSource, "main.tex", none, none⟩).run "c" =
        (.error (.failed (.document "/d/main.tex" (.unreadable "/d/b.tex"))), "c") ∧
      (∃ m d, Toolkit.standard.compile? "y+" = some m ∧
        document .standard spoiltTree.toDisk (searching "y+" "c.tex") = .ok d ∧
        (write .standard spoiltTree.toDisk (searching "y+" "c.tex")).run "c" =
          (.ok (), "c" ++ d.listing .standard m .text)) ∧
      Toolkit.standard.compile? "(" = none ∧
      ∀ disk, (write .standard disk (searching "(" "main.tex")).run "c" =
        (.error (.failed (.badPattern "(")), "c") := by
  have hcompiles : (Toolkit.standard.compile? "y+").isSome := by decide +kernel
  have hloads : (document .standard spoiltTree.toDisk (searching "y+" "c.tex")).toOption.isSome := by
    decide +kernel
  have hpattern : Toolkit.standard.compile? "(" = none := by
    have hnone : (Toolkit.standard.compile? "(").isNone := by decide +kernel
    exact Option.isNone_iff_eq_none.1 hnone
  obtain ⟨m, hm⟩ := Option.isSome_iff_exists.1 hcompiles
  obtain ⟨d, hd⟩ := Option.isSome_iff_exists.1 hloads
  have hdocument := Results.toOption_eq_some.1 hd
  have hfound := ((commands_write_all_or_nothing .standard (searching "y+" "c.tex") "c").1
    spoiltTree).found "y+" .text m d rfl hm hdocument
  have hrefused := ((commands_write_all_or_nothing .standard (searching "(" "main.tex") "c").2.2
    "(" .text rfl hpattern).1
  exact ⟨by decide +kernel, ⟨m, d, hm, hdocument, hfound⟩, hpattern, hrefused⟩

end Invocation

/-- A run of the program that does not end well prints nothing but its complaint, and never
ends at a fault. -/
theorem Disk.run_prints (tools : Toolkit) {disk : Disk} (hbounded : disk.Bounded)
    (arguments : List String) :
    (disk.run tools arguments).status = 0 ∨
      ((disk.run tools arguments).status = 1 ∨ (disk.run tools arguments).status = 2) ∧
        (disk.run tools arguments).output = "" := by
  unfold Disk.run
  cases Invocation.ofArguments arguments with
  | error stop =>
      cases stop with
      | misuse => exact Or.inr ⟨Or.inr rfl, rfl⟩
      | version | help => exact Or.inl rfl
  | ok i =>
      rcases (Invocation.allOrNothing tools hbounded i "").ends with ⟨failure, -, -, hrun⟩ | ⟨_, -, hrun⟩
      · simp only [hrun]
        exact Or.inr ⟨Or.inl rfl, rfl⟩
      · simp only [hrun]
        exact Or.inl rfl

end LatexOrigins
