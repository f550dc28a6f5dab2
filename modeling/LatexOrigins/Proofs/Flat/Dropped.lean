import LatexOrigins.Proofs.Flat.Shift
import LatexOrigins.Proofs.Markup.Balanced

/-!
# Dropped arguments

A command that keeps none of its arguments goes with all that stands in them. What stands
there may be anything that is balanced: comments, inclusions, other commands. It decides only
how far what comes behind the command is moved. For the scan passes over balanced arguments
in one step, and behind them it sees the last brace and nothing before it.
-/

namespace LatexOrigins.Flat

open Markup
open Results (Matched)

/-- Arguments in braces, one behind the other. -/
def arguments : List String → String
  | [] => ""
  | d :: ds => "\x7b" ++ d ++ "\x7d" ++ arguments ds

def command (name : String) (ds : List String) : String := "\\" ++ name ++ arguments ds

/-- The command of a rule takes arguments and keeps none. -/
structure Drops (options : Options) (rule : CommandRule) : Prop where
  /-- No rule before it has its name. -/
  first : options.commandRules.find? (·.name = rule.name) = some rule
  nonempty : rule.name ≠ ""
  letters : ∀ b ∈ Text.bytes rule.name, isLetter b = true
  not_verb : rule.name ≠ "verb"
  takes : 0 < rule.arguments
  keepsNone : KeepsNone rule

/-- Balanced arguments, as many as a rule takes. -/
structure Arguments (rule : CommandRule) (ds : List String) : Prop where
  length : ds.length = rule.arguments
  balanced : ∀ d ∈ ds, Balanced (Text.bytes d)

variable {options : Options} {rule : CommandRule} {ds ds' : List String} {front back : String}

/-! ## The command -/

theorem bytes_arguments_cons (d : String) (ds : List String) :
    Text.bytes (arguments (d :: ds)) =
      leftBrace :: (Text.bytes d ++ rightBrace :: Text.bytes (arguments ds)) := by
  have hleft : Text.bytes "\x7b" = [leftBrace] := by decide +kernel
  have hright : Text.bytes "\x7d" = [rightBrace] := by decide +kernel
  rw [arguments, Text.bytes_append, Text.bytes_append, Text.bytes_append, hleft, hright,
    List.append_assoc, List.append_assoc]
  rfl

theorem bytes_command (name : String) (ds : List String) :
    Text.bytes (command name ds) = backslash :: (Text.bytes name ++ Text.bytes (arguments ds)) := by
  have hback : Text.bytes "\\" = [backslash] := by decide +kernel
  rw [command, Text.bytes_append, Text.bytes_append, hback, List.append_assoc]
  rfl

theorem ruleArguments_arguments (keep : Option Nat) (index : Nat)
    (hds : ∀ d ∈ ds, Balanced (Text.bytes d)) (l : List UInt8) :
    (ruleArguments keep index ds.length (Text.bytes (arguments ds) ++ l)).2 =
      (arguments ds).utf8ByteSize := by
  induction ds generalizing index with
  | nil => rfl
  | cons d ds ih =>
      obtain ⟨hd, hds⟩ := List.forall_mem_cons.1 hds
      have hfront : Text.bytes (arguments (d :: ds)) ++ l =
          leftBrace :: (Text.bytes d ++ rightBrace :: (Text.bytes (arguments ds) ++ l)) := by
        rw [bytes_arguments_cons]
        simp
      have hsize : (arguments (d :: ds)).utf8ByteSize =
          (Text.bytes d).length + 2 + (arguments ds).utf8ByteSize := by
        rw [← Text.length_bytes, bytes_arguments_cons, ← Text.length_bytes (arguments ds)]
        simp only [List.length_cons, List.length_append]
        omega
      rw [hfront, List.length_cons, ruleArguments, optionsWidth_leftBrace, List.drop_zero,
        braced_balanced hd]
      simp only [Group.width, Nat.zero_add, drop_group, ih (index + 1) hds, hsize]
      omega

theorem Arguments.exists_tail (h : Drops options rule) (hds : Arguments rule ds) :
    ∃ tail, Text.bytes (arguments ds) = leftBrace :: tail := by
  cases ds with
  | nil =>
      have hlength : 0 = rule.arguments := hds.length
      exact absurd h.takes (by omega)
  | cons d ds => exact ⟨_, bytes_arguments_cons d ds⟩

namespace Drops

theorem controlStep_eq (h : Drops options rule) {tail : List UInt8}
    (hback : tail.head? = some leftBrace) (l : List UInt8) :
    controlStep options l (Text.bytes rule.name ++ tail) =
      ruleStep rule (1 + rule.name.utf8ByteSize) l := by
  have htake : (Text.bytes rule.name ++ tail).take
      (wordWidth (Text.bytes rule.name ++ tail)) = Text.bytes rule.name := by
    refine take_wordWidth h.letters fun c hc => ?_
    obtain rfl := Option.some.inj (hback.symm.trans hc)
    decide
  have hsome : Text.bytes rule.name ≠ [] := fun hnil => h.nonempty (Text.bytes_injective hnil)
  have hverb : (Text.bytes "verb" == Text.bytes rule.name) = false := by
    rw [beq_eq_false_iff_ne]
    exact fun heq => h.not_verb (Text.bytes_injective heq).symm
  have hfirst : options.commandRules.find?
      (fun other => Text.bytes other.name == Text.bytes rule.name) = some rule := by
    rw [← h.first]
    congr 1
    funext other
    rw [Bool.eq_iff_iff, beq_iff_eq, decide_eq_true_eq]
    exact ⟨fun heq => Text.bytes_injective heq, congrArg Text.bytes⟩
  unfold controlStep
  simp only [htake, if_neg hsome, hverb, hfirst, Text.length_bytes]
  rfl

/-- The step at the command passes over it and its arguments, and nothing of it stays. -/
theorem stepAt_command (h : Drops options rule) (hds : Arguments rule ds) (a l : List UInt8) :
    stepAt options (a ++ (Text.bytes (command rule.name ds) ++ l)) a.length
        (a ++ (Text.bytes (command rule.name ds) ++ l)).length =
      .unwrap none (command rule.name ds).utf8ByteSize := by
  obtain ⟨tail, htail⟩ := hds.exists_tail h
  have hfront : Text.bytes (command rule.name ds) ++ l =
      backslash :: (Text.bytes rule.name ++ (Text.bytes (arguments ds) ++ l)) := by
    rw [bytes_command, List.cons_append, List.append_assoc]
  have hsize : (command rule.name ds).utf8ByteSize =
      1 + rule.name.utf8ByteSize + (arguments ds).utf8ByteSize := by
    rw [← Text.length_bytes, bytes_command, List.length_cons, List.length_append,
      Text.length_bytes, Text.length_bytes]
    omega
  have hdrop : (backslash :: (Text.bytes rule.name ++ (Text.bytes (arguments ds) ++ l))).drop
      (1 + rule.name.utf8ByteSize) = Text.bytes (arguments ds) ++ l := by
    rw [Nat.add_comm, List.drop_succ_cons, ← Text.length_bytes, List.drop_left]
  have hstar : starWidth (Text.bytes (arguments ds) ++ l) = 0 := by
    rw [htail, List.cons_append, starWidth_leftBrace]
  have hwidth := ruleArguments_arguments rule.keep 1 hds.balanced l
  rw [hds.length] at hwidth
  have hkept := ruleStep_kept h.keepsNone (1 + rule.name.utf8ByteSize)
    (backslash :: (Text.bytes rule.name ++ (Text.bytes (arguments ds) ++ l)))
  rw [stepAt, List.drop_left, hfront, step_backslash, h.controlStep_eq (by rw [htail]; rfl)]
  unfold ruleStep at hkept ⊢
  simp only [Step.kept, hdrop, hstar, Nat.add_zero] at hkept ⊢
  rw [hkept, hwidth, hsize]

end Drops

/-! ## The moves -/

/-- Before the command everything is kept, the command moves nothing, and behind it the scan
goes on. -/
theorem Drops.moves_command (h : Drops options rule) (hds : Arguments rule ds)
    (hplain : ∀ b ∈ Text.bytes front, isPlain b = true) (back : String) :
    moves options (front ++ command rule.name ds ++ back) =
      plainMoves front ++
        movesBetween options (Text.bytes (front ++ command rule.name ds ++ back))
          (front ++ command rule.name ds).utf8ByteSize
          (Text.bytes (front ++ command rule.name ds ++ back)).length := by
  have hbytes : Text.bytes (front ++ command rule.name ds ++ back) =
      Text.bytes front ++ (Text.bytes (command rule.name ds) ++ Text.bytes back) := by
    rw [Text.bytes_append, Text.bytes_append, List.append_assoc]
  have hback : (Text.bytes (command rule.name ds) ++ Text.bytes back).head? = some backslash := by
    rw [bytes_command]
    rfl
  have hstep := h.stepAt_command hds (Text.bytes front) (Text.bytes back)
  rw [moves_eq, hbytes, movesBetween_front hplain hback, String.utf8ByteSize_append]
  congr 1
  rw [← Text.length_bytes front, movesBetween_of_lt ?_ (Nat.le_refl _), hstep]
  · rfl
  · obtain ⟨others, hothers⟩ := List.head?_eq_some_iff.1 hback
    rw [hothers, List.length_append, List.length_cons]
    omega

theorem Drops.not_follow (h : Drops options rule) (hds : Arguments rule ds)
    (hplain : ∀ b ∈ Text.bytes front, isPlain b = true) (back : String) {start stop : Nat}
    (hmove : .follow start stop ∈ moves options (front ++ command rule.name ds ++ back)) :
    (front ++ command rule.name ds).utf8ByteSize ≤ start := by
  rw [h.moves_command hds hplain, List.mem_append] at hmove
  rcases hmove with hmove | hmove
  · unfold plainMoves at hmove
    split at hmove
    · cases hmove
    · cases List.mem_singleton.1 hmove
  · rw [← Text.length_bytes, Text.bytes_append (_ ++ _), (movesBetween_behind rfl _).1] at hmove
    obtain ⟨move, -, hmove⟩ := List.mem_map.1 hmove
    cases move with
    | follow start' stop' =>
        obtain ⟨rfl, -⟩ := Move.follow.inj hmove
        exact Nat.le_add_right _ _
    | keep | comment => cases hmove

theorem exists_init_arguments (d : String) (ds : List String) :
    ∃ init, Text.bytes (arguments (d :: ds)) = init ++ [rightBrace] := by
  induction ds generalizing d with
  | nil => exact ⟨leftBrace :: Text.bytes d, bytes_arguments_cons d []⟩
  | cons e ds ih =>
      obtain ⟨init, hinit⟩ := ih e
      refine ⟨leftBrace :: (Text.bytes d ++ rightBrace :: init), ?_⟩
      rw [bytes_arguments_cons, hinit]
      simp

theorem Drops.lead_eq (h : Drops options rule) (hds : Arguments rule ds) (front : String) :
    lead (Text.bytes (front ++ command rule.name ds)).reverse = none := by
  obtain ⟨init, hinit⟩ : ∃ init, Text.bytes (arguments ds) = init ++ [rightBrace] := by
    cases ds with
    | nil =>
        obtain ⟨tail, htail⟩ := hds.exists_tail h
        cases htail
    | cons d ds => exact exists_init_arguments d ds
  rw [Text.bytes_append, bytes_command, hinit, ← List.append_assoc, ← List.cons_append,
    ← List.append_assoc, List.reverse_concat, lead_cons (by decide), if_neg (by decide)]

theorem Drops.alike (h : Drops options rule) (hds : Arguments rule ds) (hds' : Arguments rule ds')
    (hplain : ∀ b ∈ Text.bytes front, isPlain b = true) (path back : String) :
    Alike (shift path (front ++ command rule.name ds).utf8ByteSize
        (front ++ command rule.name ds').utf8ByteSize) path
      (front ++ command rule.name ds ++ back) (front ++ command rule.name ds' ++ back)
      (moves options (front ++ command rule.name ds ++ back))
      (moves options (front ++ command rule.name ds' ++ back)) := by
  have hlead := (h.lead_eq hds front).trans (h.lead_eq hds' front).symm
  rw [h.moves_command hds hplain, h.moves_command hds' hplain]
  refine Alike.append ?_ (Alike.rest (shift_add path _ _) hlead back)
  unfold plainMoves
  split
  · exact .nil
  · rw [String.append_assoc, String.append_assoc]
    refine Alike.keep_front (fun k hk => shift_of_lt ?_) (Nat.zero_le _) (Nat.le_refl _) _ _
    rw [String.utf8ByteSize_append]
    omega

/-! ## Runs -/

/-- Contents that differ in what stands in dropped arguments only are flattened alike: the
runs fail with the same error, or have the same text, the same paths and the same origins,
those behind the command moved by the difference in length. An inclusion in the arguments is
not even looked for. -/
theorem expand_dropped {files files' : FileSet} {path : String} (h : Drops options rule)
    (hds : Arguments rule ds) (hds' : Arguments rule ds')
    (hplain : ∀ b ∈ Text.bytes front, isPlain b = true)
    (hedited : Edited files files' path (front ++ command rule.name ds ++ back)
      (front ++ command rule.name ds' ++ back)) (main : String) :
    Matched
        (Relocated (shift path (front ++ command rule.name ds).utf8ByteSize
          (front ++ command rule.name ds').utf8ByteSize))
        (expand files options main) (expand files' options main) ∧
      ∀ start stop, .follow start stop ∈ moves options (front ++ command rule.name ds ++ back) →
        (front ++ command rule.name ds).utf8ByteSize ≤ start :=
  ⟨hedited.expand_relocated (fun _ hother => shift_of_ne hother) (h.alike hds hds' hplain path back)
    main, fun _ _ => h.not_follow hds hplain back⟩

def noteRule : CommandRule := .dropped "todo" 1

/-- A note that has an inclusion and a comment in it. -/
def includingNote : String := "\\input\x7bt\x7d%\n"

/-- A file with a note, before a line with a comment and a file that is included. -/
def notedContent (note : String) : String :=
  "a\n" ++ command "todo" [note] ++ "  % c\n\\input\x7bs\x7d"

def notedFiles (note : String) : MemoryFiles :=
  (MemoryFiles.ofList "/" [("s.tex", "b")]).insert "main.tex" (notedContent note)

def notedFlat (note : String) (start : Nat) : Flat where
  text := "a\n  \nb"
  files := #[⟨"/main.tex", notedContent note⟩, ⟨"/s.tex", "b"⟩]
  origins := (provenances 0 0 2 ++ provenances 0 start (start + 2) ++
    provenances 0 (start + 5) (start + 6) ++ provenances 1 0 1).toArray

theorem balanced_includingNote : Balanced (Text.bytes includingNote) := by
  have hbytes : Text.bytes includingNote = backslash :: 0x69 :: ([0x6e, 0x70, 0x75, 0x74] ++
      leftBrace :: ([0x74] ++ rightBrace :: [percent, lineBreak])) := by
    decide +kernel
  rw [hbytes]
  exact .escape _ ((Balanced.of_bytes (by decide +kernel)).append
    (.group (.of_bytes (by decide +kernel)) (.of_bytes (by decide +kernel))))

theorem drops_noteRule : Drops .standard noteRule where
  first := by decide
  nonempty := by decide
  letters := by decide +kernel
  not_verb := by decide
  takes := by decide
  keepsNone := by
    intro index hindex
    cases hindex

theorem arguments_noteRule {note : String} (h : Balanced (Text.bytes note)) :
    Arguments noteRule [note] :=
  ⟨rfl, fun _ hmem => List.mem_singleton.1 hmem ▸ h⟩

/-- The note may as well be empty, although the file that it includes does not exist. -/
theorem dropped_includingNote :
    expand (notedFiles includingNote).toFileSet .standard "main.tex" =
        .ok (notedFlat includingNote 20) ∧
      expand (notedFiles "").toFileSet .standard "main.tex" = .ok (notedFlat "" 9) ∧
      Matched (Relocated (shift "/main.tex" 20 9))
        (expand (notedFiles includingNote).toFileSet .standard "main.tex")
        (expand (notedFiles "").toFileSet .standard "main.tex") ∧
      ∀ start stop, .follow start stop ∈ moves .standard (notedContent includingNote) →
        20 ≤ start := by
  have hedited : Edited (notedFiles includingNote).toFileSet (notedFiles "").toFileSet "/main.tex"
      (notedContent includingNote) (notedContent "") :=
    Edited.insert (MemoryFiles.ofList "/" [("s.tex", "b")]) "main.tex" _ _
  have hempty : Balanced (Text.bytes "") := .nil
  exact ⟨by decide +kernel, by decide +kernel,
    expand_dropped drops_noteRule (arguments_noteRule balanced_includingNote)
      (arguments_noteRule hempty) (by decide +kernel) hedited "main.tex"⟩

end LatexOrigins.Flat
