import LatexOrigins.Pattern.Expr

/-!
# The simple form of expressions

Expressions are put together so that they stay simple. Sequences and alternatives
lean to the right and hold no empty part, characters in a row are one literal,
alternatives between characters or between sets are one set, and what all
alternatives start with stands once in front of them. None of this changes what an
expression matches; it decides how big its automata get.
-/

namespace LatexOrigins.Pattern.Expr

/-- One character of a set; the only one, if there is just one. -/
def ofSet (set : CharSet) : Expr :=
  match set.single? with
  | some c => .literal c []
  | none => .char set

def parts : Expr → List Expr
  | .empty => []
  | .seq a b => a :: b.parts
  | e => [e]

/-- Put a part in front of others. Literals that meet become one. -/
def prepend : Expr → List Expr → List Expr
  | .literal c cs, .literal d ds :: others => .literal c (cs ++ d :: ds) :: others
  | part, others => part :: others

def ofParts : List Expr → Expr
  | [] => .empty
  | [e] => e
  | e :: others => .seq e (ofParts others)

def concat (es : List Expr) : Expr := ofParts ((es.flatMap parts).foldr prepend [])

def branches : Expr → List Expr
  | .alt a b => a :: b.branches
  | e => [e]

def isChoice : Expr → Bool
  | .alt _ _ => true
  | _ => false

def ofBranches : List Expr → Expr
  | [] => .char .empty
  | [e] => e
  | e :: others => .alt e (ofBranches others)

def char? : Expr → Option Char
  | .literal c [] => some c
  | _ => none

def set? : Expr → Option CharSet
  | .char set => some set
  | _ => none

def choice (es : List Expr) : Expr :=
  let es := es.flatMap branches
  match es with
  | [e] => e
  | _ =>
    match es.mapM char?, es.mapM set? with
    | some chars, _ => ofSet (.ofChars chars)
    | none, some sets => ofSet (sets.foldl .union .empty)
    | none, none => ofBranches es

def sharedPrefix : List Expr → List Expr → List Expr
  | a :: as, b :: bs => if a = b then a :: sharedPrefix as bs else []
  | _, _ => []

/-- The parts that all of some alternatives start with, if all are sequences. -/
def sharedParts : List Expr → List Expr
  | first :: second :: others =>
    let sequences := (first :: second :: others).map parts
    if sequences.all fun parts => 2 ≤ parts.length then
      sequences.foldl sharedPrefix first.parts
    else []
  | _ => []

def alternatives (es : List Expr) : Expr :=
  let es := es.flatMap branches
  let shared := sharedParts es
  if shared.isEmpty then choice es
  else concat (shared ++ [choice (es.map fun e => concat (e.parts.drop shared.length))])

/-- An expression several times. One that only matches the empty text is not
repeated more than once. -/
def repeated (least : Nat) (most : Option Nat) (greedy : Bool) (body : Expr) : Expr :=
  let (least, most) :=
    if body.onlyEmpty then (min least 1, some (min (most.getD 1) 1)) else (least, most)
  if most = some 0 then .empty
  else if least = 1 ∧ most = some 1 then body
  else .rep least most greedy body

end LatexOrigins.Pattern.Expr
