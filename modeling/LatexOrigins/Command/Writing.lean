import LatexOrigins.Command.Basic

/-!
# Writing

A command writes while it runs. What it has written stays written, also if it halts
before it is done: because something is wrong with what it was given, which it
reports, or because of a fault. The places of matches are written one by one, and a
match whose place cannot be told is passed over.
-/

namespace LatexOrigins

/-- Why a command ends before it is done. -/
inductive Halt where
  | failed (failure : Failure)
  | fault (cause : Fault)
  deriving DecidableEq, Repr

def Failure.halt (failure : Failure) : Halt :=
  match failure.cause? with
  | some (.fault cause) => .fault cause
  | _ => .failed failure

/-- A computation that appends to what has been written. -/
abbrev Writing (α : Type) := ExceptT Halt (StateM String) α

namespace Writing

def run {α : Type} (w : Writing α) (before : String) : Except Halt α × String :=
  Id.run (StateT.run (ExceptT.run w) before)

def emit (text : String) : Writing Unit := modify (· ++ text)

def ofResult {α : Type} : Except Failure α → Writing α
  | .ok a => pure a
  | .error failure => throw failure.halt

end Writing

open Writing (emit ofResult)

variable (tools : Toolkit)

def View.write (d : Document) : View → Writing Unit
  | flatSource => emit d.flatText
  | plainText => emit d.text
  | files => d.files.forM fun path => emit (path ++ "\n")
  | record => do
    emit (tools.pretty d.record.toJson)
    emit "\n"

namespace Document

def writeFound : Except Origin.Error Origin → Writing Unit
  | .ok origin => do
    emit (tools.compact origin.record.toJson)
    emit "\n"
  | .error (.fault cause) => throw (.fault cause)
  | .error _ => pure ()

def writeListing (d : Document) (m : Matcher) (target : SearchTarget) : Writing Unit :=
  (d.find m target).forM (writeFound tools)

end Document

namespace Invocation

def write (disk : Disk) (i : Invocation) : Writing Unit :=
  match i.command with
  | .print view => do
    let document ← ofResult (i.document tools disk)
    view.write tools document
  | .find text target => do
    let pattern ← ofResult (tools.pattern text)
    let document ← ofResult (i.document tools disk)
    document.writeListing tools pattern target

/-- The path that has not been examined and that a command stops at. -/
def missing? (i : Invocation) (snapshot : Snapshot) : Option String :=
  match ((i.write tools snapshot.toDisk).run "").1 with
  | .error (.failed failure) => failure.unreadable?.filter snapshot.wanted
  | _ => none

end Invocation

end LatexOrigins
