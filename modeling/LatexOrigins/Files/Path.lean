/-!
# Paths

Paths are texts whose names are separated by slashes. Repeated slashes, a
trailing slash and a `.` after the first name mean nothing. Normalizing a path
drops every `.` and lets `..` take back what stands before it; where nothing
can be taken back the `..` stays.
-/

namespace LatexOrigins.Path

inductive Component where
  | root
  | here
  | up
  | name (text : String)
  deriving DecidableEq, Repr

def pieces (separator : Char) : List Char → List (List Char)
  | [] => [[]]
  | c :: rest =>
    if c = separator then [] :: pieces separator rest
    else
      match pieces separator rest with
      | [] => [[c]]
      | piece :: others => (c :: piece) :: others

theorem pieces_ne_nil (separator : Char) (l : List Char) : pieces separator l ≠ [] := by
  cases l with
  | nil => simp [pieces]
  | cons c rest =>
    unfold pieces
    split
    · simp
    · split <;> simp

def isAbsolute (path : String) : Bool := path.toList.head? = some '/'

def endsWithSlash (path : String) : Bool := path.toList.getLast? = some '/'

/-- The component that a piece between slashes stands for; an empty piece and a
`.` stand for none. -/
def ofPiece (piece : List Char) : Option Component :=
  if piece = [] ∨ piece = ['.'] then none
  else if piece = ['.', '.'] then some .up
  else some (.name (String.ofList piece))

def lead (path : String) : List Component :=
  if isAbsolute path then [.root]
  else if (pieces '/' path.toList).head? = some ['.'] then [.here]
  else []

def components (path : String) : List Component :=
  lead path ++ (pieces '/' path.toList).filterMap ofPiece

def Component.text : Component → String
  | .root => "/"
  | .here => "."
  | .up => ".."
  | .name text => text

def join (base path : String) : String :=
  if isAbsolute path then path
  else if base = "" then path
  else if endsWithSlash base then base ++ path
  else base ++ "/" ++ path

def ofComponents (parts : List Component) : String :=
  parts.foldl (fun path part => join path part.text) ""

/-- The directory of a path; the root and the empty path have none. -/
def parent? (path : String) : Option String :=
  let parts := components path
  match parts.getLast? with
  | none => none
  | some .root => none
  | some _ => some (ofComponents parts.dropLast)

def fileName? (path : String) : Option String :=
  match (components path).getLast? with
  | some (.name text) => some text
  | _ => none

/-- What follows the last dot of the last name, unless that dot leads the name. -/
def extension? (path : String) : Option String :=
  match fileName? path with
  | none => none
  | some file =>
    match (pieces '.' file.toList).reverse with
    | last :: before :: rest =>
      if rest = [] ∧ before = [] then none else some (String.ofList last)
    | _ => none

/-- A path in the making: whether it is absolute, and its parts, last first. -/
structure Route where
  absolute : Bool
  parts : List String
  deriving DecidableEq, Repr

namespace Route

def empty : Route := ⟨false, []⟩

/-- Follow one component. A `..` takes back the part before it, also where that
is a `..` that stayed; with nothing to take back it stays itself. -/
def follow (route : Route) : Component → Route
  | .root => ⟨true, []⟩
  | .here => route
  | .up =>
    match route.parts with
    | [] => { route with parts := [".."] }
    | _ :: before => { route with parts := before }
  | .name text => { route with parts := text :: route.parts }

def toText (route : Route) : String :=
  String.ofList <|
    (if route.absolute then ['/'] else []) ++
      ['/'].intercalate (route.parts.reverse.map String.toList)

end Route

def normalize (path : String) : String :=
  ((components path).foldl Route.follow Route.empty).toText

/-- A path as seen from a directory: `.` and repeated slashes go, `..`, a
leading double slash and a trailing slash stay. -/
def absolute (directory path : String) : String :=
  let parts := components path
  let start :=
    if !isAbsolute path then directory
    else if ['/', '/'].isPrefixOf path.toList && !(['/', '/', '/'].isPrefixOf path.toList) then "//"
    else "/"
  let names := parts.filter (fun part => part ≠ .root ∧ part ≠ .here)
  let whole := names.foldl (fun whole part => join whole part.text) start
  if endsWithSlash path then join whole "" else whole

end LatexOrigins.Path
