import LatexOrigins.Command.Arguments
import LatexOrigins.Command.Writing

/-!
# Outcomes

How a run of the program ends: with status 0 if the command is done, with status 1 if
it fails, with status 2 if the arguments do not fit, and with status 101 at a fault.
The output is what the command has written, however it ends.
-/

namespace LatexOrigins

structure Outcome where
  status : Nat
  output : String
  complaint : String
  deriving DecidableEq, Repr

namespace Outcome

def version : String := "checktex 0.1.0\n"

def usage : String :=
  "Usage: checktex [--root <DIR>] [--config <FILE>] <COMMAND>\n\n" ++
  "Commands:\n" ++
  "  flatten <MAIN>                  Print the flattened source\n" ++
  "  text <MAIN>                     Print the plain text\n" ++
  "  files <MAIN>                    List the files in inclusion order\n" ++
  "  dump <MAIN>                     Print sources and plain text as JSON\n" ++
  "  find [--source] <MAIN> <REGEX>  Print the origin of every match\n"

def ofStop : Stop → Outcome
  | .misuse => ⟨2, "", usage⟩
  | .version => ⟨0, version, ""⟩
  | .help => ⟨0, usage, ""⟩

def complaintOf (failure : Failure) : String :=
  let words := failure.message?.toList ++ (failure.cause?.bind LoadError.message?).toList
  "Error: " ++ ": ".intercalate words ++ "\n"

def ofWriting : Except Halt Unit × String → Outcome
  | (.ok _, output) => ⟨0, output, ""⟩
  | (.error (.failed failure), output) => ⟨1, output, complaintOf failure⟩
  | (.error (.fault cause), output) => ⟨101, output, cause.message?.getD ""⟩

end Outcome

def Disk.run (tools : Toolkit) (disk : Disk) (arguments : List String) : Outcome :=
  match Invocation.ofArguments arguments with
  | .error stop => .ofStop stop
  | .ok invocation => .ofWriting ((invocation.write tools disk).run "")

end LatexOrigins
