import LatexOrigins.Files.Path
import LatexOrigins.LoadError

/-!
# Sets of files

A document reads its files from a file set: a root directory and what is found
under each path. A name that a file mentions is looked up relative to the root
and then relative to the directory of that file, each time as it stands and, if
it has no extension, with `.tex` appended; the first path that exists is taken.
-/

namespace LatexOrigins

inductive FileEntry where
  | content (text : String)
  | unreadable
  deriving DecidableEq, Repr

structure FileSet where
  root : String
  entry? : String → Option FileEntry
  depth : Nat

namespace FileSet

def contains (files : FileSet) (path : String) : Bool := (files.entry? path).isSome

def read (files : FileSet) (path : String) : Except LoadError String :=
  match files.entry? path with
  | some (.content text) => .ok text
  | _ => .error (.unreadable path)

def spellings (name : String) : List String :=
  if (Path.extension? name).isNone then [name, name ++ ".tex"] else [name]

def directories (files : FileSet) (includer : Option String) : List String :=
  files.root :: (includer.bind Path.parent?).toList

/-- The paths that a name may stand for, in the order in which they are tried. -/
def candidates (files : FileSet) (name : String) (includer : Option String) : List String :=
  (files.directories includer).flatMap fun directory =>
    (spellings name).map fun spelling => Path.normalize (Path.join directory spelling)

def resolve (files : FileSet) (name : String) (includer : Option String) : Option String :=
  (files.candidates name includer).find? files.contains

end FileSet

structure MemoryFiles where
  root : String
  entries : List (String × String)
  deriving DecidableEq, Repr

namespace MemoryFiles

def empty (root : String) : MemoryFiles := ⟨root, []⟩

/-- Put a file in; it hides an earlier one under the same path. -/
def insert (files : MemoryFiles) (path text : String) : MemoryFiles :=
  { files with entries := (Path.normalize (Path.join files.root path), text) :: files.entries }

def ofList (root : String) (files : List (String × String)) : MemoryFiles :=
  files.foldl (fun set file => set.insert file.1 file.2) (empty root)

def find? (files : MemoryFiles) (path : String) : Option String :=
  (files.entries.find? (·.1 = path)).map (·.2)

def toFileSet (files : MemoryFiles) : FileSet where
  root := files.root
  entry? path := (files.find? path).map .content
  depth := files.entries.length

end MemoryFiles

end LatexOrigins
