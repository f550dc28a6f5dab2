import LatexOrigins.Files.FileSet

/-!
# Disks

A disk is what a command line sees of the outside: the current directory, and
what stands under each path. A path that is not absolute is seen from the
current directory.

A `FileTree` is a disk that is held whole. A `Snapshot` is the part of a disk
that has been examined: work that depends on another part stops at a path that
is `wanted`, and can be started again once that path has been examined.
-/

namespace LatexOrigins

structure Disk where
  directory : String
  entry? : String → Option FileEntry
  size : Nat

def Disk.toFileSet (disk : Disk) (root : String) : FileSet := ⟨root, disk.entry?, disk.size⟩

/-! ## Trees -/

/-- Files in directories. A place is given by the names on the way to it. -/
structure FileTree where
  current : List String
  files : List (List String × FileEntry)
  deriving DecidableEq, Repr

namespace FileTree

def empty (current : List String) : FileTree := ⟨current, []⟩

/-- Put a file in, under a path seen from the current directory; it hides an
earlier one at the same place. Directories on the way need not be there. -/
def insert (tree : FileTree) (path : String) (entry : FileEntry) : FileTree :=
  let route := (Path.components path).foldl Path.Route.follow ⟨true, tree.current.reverse⟩
  { tree with files := (route.parts.reverse, entry) :: tree.files }

/-- Whether there is a directory at a place: one that leads to a file or to the
current directory. -/
def isDirectory (tree : FileTree) (place : List String) : Bool :=
  place.isPrefixOf tree.current ||
    tree.files.any fun file => place.isPrefixOf file.1 && place ≠ file.1

/-- Where a piece of a path leads from a place. Nothing is found in what is no
directory, not even the place itself or the one above. -/
def step? (tree : FileTree) (place : List String) (piece : List Char) : Option (List String) :=
  if !tree.isDirectory place then none
  else if piece = [] ∨ piece = ['.'] then some place
  else if piece = ['.', '.'] then some place.dropLast
  else some (place ++ [String.ofList piece])

def place? (tree : FileTree) (path : String) : Option (List String) :=
  if path = "" then none
  else
    (Path.pieces '/' path.toList).foldlM tree.step?
      (if Path.isAbsolute path then [] else tree.current)

def entry? (tree : FileTree) (path : String) : Option FileEntry := do
  let place ← tree.place? path
  (tree.files.find? (·.1 = place)).map (·.2)

/-- A tree as a disk. A file has at most four normalized paths: from the root or
from the current directory, with a `..` in front or without. -/
def toDisk (tree : FileTree) : Disk where
  directory := "/" ++ "/".intercalate tree.current
  entry? := tree.entry?
  size := 4 * tree.files.length

end FileTree

/-! ## Snapshots -/

structure Snapshot where
  directory : String
  known : List (String × Option FileEntry)
  deriving DecidableEq, Repr

namespace Snapshot

def empty (directory : String) : Snapshot := ⟨directory, []⟩

def learn (snapshot : Snapshot) (path : String) (found : Option FileEntry) : Snapshot :=
  { snapshot with known := (path, found) :: snapshot.known }

def wanted (snapshot : Snapshot) (path : String) : Bool := snapshot.known.all (·.1 ≠ path)

/-- A snapshot as a disk. A path that has not been examined leads to a file that
cannot be read, so that nothing can be made of it unnoticed. -/
def toDisk (snapshot : Snapshot) : Disk where
  directory := snapshot.directory
  entry? path :=
    match snapshot.known.find? (·.1 = path) with
    | some (_, found) => found
    | none => some .unreadable
  size := snapshot.known.length

theorem toDisk_entry?_of_wanted {snapshot : Snapshot} {path : String}
    (h : snapshot.wanted path) : snapshot.toDisk.entry? path = some .unreadable := by
  have : snapshot.known.find? (·.1 = path) = none := by
    simpa [wanted, List.find?_eq_none] using h
  simp [toDisk, this]

@[simp] theorem toDisk_entry?_learn (snapshot : Snapshot) (path : String)
    (found : Option FileEntry) : (snapshot.learn path found).toDisk.entry? path = found := by
  simp [toDisk, learn]

end Snapshot

end LatexOrigins
