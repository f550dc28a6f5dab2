import LatexOrigins.Toml.Quoted

/-!
# Numbers and dates in TOML

Integers have sixty-four bits and may be written in four bases; digits may be
separated by single underscores. A number with a fraction or an exponent must
not round to infinity. Dates and times are checked for range, the days of a
month included.
-/

namespace LatexOrigins.Toml

/-- Digits of a base with single underscores between them, the underscores left
out. -/
def digits (base : Nat) : List Char → Except Error (List Nat × List Char)
  | [] => .error .badNumber
  | c :: rest =>
    match digit? base c with
    | none => .error .badNumber
    | some n => more [n] rest
where
  more (before : List Nat) : List Char → Except Error (List Nat × List Char)
    | [] => .ok (before.reverse, [])
    | c :: rest =>
      match digit? base c with
      | some n => more (n :: before) rest
      | none =>
        if c = '_' then
          match rest with
          | [] => .error .badNumber
          | d :: rest =>
            match digit? base d with
            | some n => more (n :: before) rest
            | none => .error .badNumber
        else
          .ok (before.reverse, c :: rest)

def numberOf (base : Nat) (ds : List Nat) : Nat := ds.foldl (fun n d => base * n + d) 0

/-- An optional sign: whether it is a minus, and what follows. -/
def sign : List Char → Bool × List Char
  | '+' :: rest => (false, rest)
  | '-' :: rest => (true, rest)
  | l => (false, l)

def wholeDigits (l : List Char) : Except Error (List Nat × List Char) :=
  match l with
  | '0' :: rest => .ok ([0], rest)
  | _ => digits 10 l

def fraction (l : List Char) : Except Error (Option (List Nat) × List Char) :=
  match l with
  | '.' :: rest => do
    let (ds, rest) ← digits 10 rest
    pure (some ds, rest)
  | _ => .ok (none, l)

def exponent (l : List Char) : Except Error (Option Int × List Char) :=
  let read (rest : List Char) : Except Error (Option Int × List Char) := do
    let (negative, rest) := sign rest
    let (ds, rest) ← digits 10 rest
    let n : Int := numberOf 10 ds
    pure (some (if negative then -n else n), rest)
  match l with
  | 'e' :: rest => read rest
  | 'E' :: rest => read rest
  | _ => .ok (none, l)

/-- Whether `mantissa` times ten to the power `power` rounds to a number beyond the
greatest of double precision. -/
def roundsToInfinity (mantissa : Nat) (power : Int) : Bool :=
  let bound := Nat.pow 2 1024 - Nat.pow 2 970
  if mantissa = 0 then false
  else if 400 < power then true
  else if 0 ≤ power then bound ≤ mantissa * Nat.pow 10 power.toNat
  else
    let places := (-power).toNat
    if (Nat.toDigits 10 mantissa).length + 400 < places then false
    else bound * Nat.pow 10 places ≤ mantissa

def wholeLimit : Nat := Nat.pow 2 63

def signedNumber (l : List Char) : Except Error (Value × List Char) := do
  let (negative, unsigned) := sign l
  match unsigned with
  | 'i' :: 'n' :: 'f' :: rest => pure (.float (if negative then "-inf" else "inf"), rest)
  | 'n' :: 'a' :: 'n' :: rest => pure (.float "nan", rest)
  | _ =>
    let (whole, rest) ← wholeDigits unsigned
    let (frac, rest) ← fraction rest
    let (power, rest) ← exponent rest
    if frac.isNone && power.isNone then
      let n : Int := numberOf 10 whole
      let n := if negative then -n else n
      if -wholeLimit ≤ n ∧ n < wholeLimit then pure (.integer n, rest) else throw .badNumber
    else
      let places := frac.getD []
      let mantissa := numberOf 10 (whole ++ places)
      if !negative && roundsToInfinity mantissa (power.getD 0 - places.length) then
        throw .badNumber
      let text := String.ofList (l.take (l.length - rest.length))
      pure (.float text, rest)

def basedNumber (base : Nat) (l : List Char) : Except Error (Value × List Char) := do
  let (ds, rest) ← digits base l
  let n := numberOf base ds
  if n < wholeLimit then pure (.integer n, rest) else throw .badNumber

def number (l : List Char) : Except Error (Value × List Char) :=
  match l with
  | '0' :: 'x' :: rest => basedNumber 16 rest
  | '0' :: 'o' :: rest => basedNumber 8 rest
  | '0' :: 'b' :: rest => basedNumber 2 rest
  | _ => signedNumber l

/-! ## Dates and times -/

def fixed? (count : Nat) (l : List Char) : Option (Nat × List Char) :=
  let ds := (l.take count).filterMap (digit? 10)
  if ds.length = count then some (numberOf 10 ds, l.drop count) else none

def after? (c : Char) : List Char → Option (List Char)
  | d :: rest => if d = c then some rest else none
  | [] => none

def daysOf (year month : Nat) : Nat :=
  if month = 2 then
    if year % 4 = 0 ∧ (year % 100 ≠ 0 ∨ year % 400 = 0) then 29 else 28
  else if month = 4 ∨ month = 6 ∨ month = 9 ∨ month = 11 then 30
  else 31

def date? (l : List Char) : Option (List Char) := do
  let (year, l) ← fixed? 4 l
  let l ← after? '-' l
  let (month, l) ← fixed? 2 l
  let l ← after? '-' l
  let (day, l) ← fixed? 2 l
  if 1 ≤ month ∧ month ≤ 12 ∧ 1 ≤ day ∧ day ≤ daysOf year month then some l else none

def minutes? (l : List Char) : Option (List Char) := do
  let (hour, l) ← fixed? 2 l
  let l ← after? ':' l
  let (minute, l) ← fixed? 2 l
  if hour ≤ 23 ∧ minute ≤ 59 then some l else none

def time? (l : List Char) : Option (List Char) := do
  let l ← minutes? l
  let l ← after? ':' l
  let (second, l) ← fixed? 2 l
  if second ≤ 60 then
    match l with
    | '.' :: rest =>
      let places := rest.takeWhile fun c => (digit? 10 c).isSome
      if places.isEmpty then none else some (rest.drop places.length)
    | _ => some l
  else
    none

def zone? (l : List Char) : Option (List Char) :=
  match l with
  | 'Z' :: rest => some rest
  | 'z' :: rest => some rest
  | '+' :: rest => minutes? rest
  | '-' :: rest => minutes? rest
  | _ => some l

def timeOfDay? (l : List Char) : Option (List Char) :=
  match l with
  | c :: rest =>
    if (c = 'T' ∨ c = 't' ∨ c = ' ') ∧ (minutes? rest).isSome then (time? rest).bind zone?
    else some l
  | [] => some l

/-- Whether a date or a time stands at the front, going by its first separator. -/
def looksLikeDate (l : List Char) : Bool :=
  let run := (l.takeWhile fun c => (digit? 10 c).isSome).length
  (run = 4 && (l.drop 4).head? = some '-') || (run = 2 && (l.drop 2).head? = some ':')

def datetime (l : List Char) : Except Error (Value × List Char) :=
  let rest? := if (l.drop 2).head? = some ':' then time? l else (date? l).bind timeOfDay?
  match rest? with
  | some rest => .ok (.datetime (String.ofList (l.take (l.length - rest.length))), rest)
  | none => .error .badNumber

end LatexOrigins.Toml
