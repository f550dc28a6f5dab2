import LatexOrigins.Command.Outcome
import LatexOrigins.Command.Standard

/-!
# The program

Files are read as they are needed: a command is run on what is known of the disk,
and each time it stops at a path that has not been examined, that path is
examined and the command is run again.
-/

namespace LatexOrigins

def examine (path : String) : IO (Option FileEntry) := do
  try
    let bytes ← IO.FS.readBinFile path
    match String.fromUTF8? bytes with
    | some text => pure (some (.content text))
    | none => pure (some .unreadable)
  catch
    | .noFileOrDirectory .. | .inappropriateType .. => pure none
    | _ => pure (some .unreadable)

partial def perform (invocation : Invocation) (snapshot : Snapshot) : IO Outcome := do
  match invocation.missing? .standard snapshot with
  | some path => perform invocation (snapshot.learn path (← examine path))
  | none => pure (.ofWriting ((invocation.write .standard snapshot.toDisk).run ""))

def report (outcome : Outcome) : IO UInt32 := do
  (← IO.getStdout).putStr outcome.output
  (← IO.getStderr).putStr outcome.complaint
  pure outcome.status.toUInt32

end LatexOrigins

open LatexOrigins in
def main (arguments : List String) : IO UInt32 := do
  match Invocation.ofArguments arguments with
  | .error stop => report (.ofStop stop)
  | .ok invocation =>
    let snapshot := Snapshot.empty (toString (← IO.currentDir))
    report (← perform invocation snapshot)
