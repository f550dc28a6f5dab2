import LatexOrigins.Analysis.Checker
import LatexOrigins.Command.Toolkit
import LatexOrigins.Document.Build
import LatexOrigins.Document.Record
import LatexOrigins.Files.Disk
import LatexOrigins.Origin.Record

/-!
# Commands

A command loads the document with a main file and prints a view of it, or the
places of all matches of a pattern. What it prints as a whole is defined here.
-/

namespace LatexOrigins

inductive View where
  | flatSource
  | plainText
  | files
  | record
  deriving DecidableEq, Repr

inductive Command where
  | print (view : View)
  | find (pattern : String) (target : SearchTarget)
  deriving DecidableEq, Repr

structure Invocation where
  command : Command
  main : String
  /-- The directory that names are relative to; by default that of the main file. -/
  root? : Option String
  settings? : Option String
  deriving DecidableEq, Repr

inductive Failure where
  | badPattern (pattern : String)
  | badMain (main : String)
  | settings (cause : LoadError)
  | document (main : String) (cause : LoadError)
  deriving DecidableEq, Repr

namespace Failure

def cause? : Failure → Option LoadError
  | badPattern _ => none
  | badMain _ => none
  | settings cause => some cause
  | document _ cause => some cause

def message? : Failure → Option String
  | badPattern pattern => some s!"invalid pattern '{pattern}'"
  | badMain main => some s!"invalid main file {main}"
  | settings cause => cause.message?
  | document main _ => some s!"failed to parse {main}"

def unreadable? (failure : Failure) : Option String :=
  match failure.cause? with
  | some (.unreadable path) => some path
  | some (.unreadableSettings path) => some path
  | _ => none

end Failure

variable (tools : Toolkit)

/-! ## Output -/

def View.render (d : Document) : View → String
  | flatSource => d.flatText
  | plainText => d.text
  | files => String.join (d.files.map (· ++ "\n"))
  | record => tools.pretty d.record.toJson ++ "\n"

def Document.listing (d : Document) (m : Matcher) (target : SearchTarget) : String :=
  String.join <| ((d.find m target).filterMap Except.toOption).map fun origin =>
    tools.compact origin.record.toJson ++ "\n"

/-! ## Running -/

def Toolkit.pattern (text : String) : Except Failure Matcher :=
  match tools.compile? text with
  | some m => .ok m
  | none => .error (.badPattern text)

theorem Toolkit.pattern_eq_ok {tools : Toolkit} {text : String} {m : Matcher}
    (h : tools.compile? text = some m) : tools.pattern text = .ok m := by
  rw [Toolkit.pattern, h]

theorem Toolkit.pattern_eq_error {tools : Toolkit} {text : String}
    (h : tools.compile? text = none) : tools.pattern text = .error (.badPattern text) := by
  rw [Toolkit.pattern, h]

def Settings.load (disk : Disk) : Option String → Except LoadError Settings
  | none => .ok .standard
  | some path =>
    match disk.entry? path with
    | some (.content text) =>
      match tools.settings? text with
      | some settings => .ok settings
      | none => .error .badSettings
    | _ => .error (.unreadableSettings path)

namespace Invocation

def mainPath (disk : Disk) (i : Invocation) : String := Path.absolute disk.directory i.main

def rootPath (disk : Disk) (i : Invocation) : String :=
  i.root?.getD ((Path.parent? (i.mainPath disk)).getD ".")

/-- The document with the main file. A path that is empty names none. -/
def document (disk : Disk) (i : Invocation) : Except Failure Document := do
  if i.main = "" then throw (.badMain i.main)
  let settings ← (Settings.load tools disk i.settings?).mapError .settings
  (Document.build (disk.toFileSet (i.rootPath disk)) settings (i.mainPath disk)).mapError
    (.document (i.mainPath disk))

/-- All that a command prints. A pattern is looked at before anything is read. -/
def output (disk : Disk) (i : Invocation) : Except Failure String :=
  match i.command with
  | .print view => do
    let document ← i.document tools disk
    pure (view.render tools document)
  | .find text target => do
    let pattern ← tools.pattern text
    let document ← i.document tools disk
    pure (document.listing tools pattern target)

end Invocation

end LatexOrigins
