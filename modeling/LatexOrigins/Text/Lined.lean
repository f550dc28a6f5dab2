import LatexOrigins.Text.Bytes
import LatexOrigins.Text.Word

/-!
# Texts with a line table

A lined text knows where its lines start: at zero and just after each line
break. The table turns offsets into positions and back. The end of the text is
a position too, because exclusive ends of ranges need one. Along a line the
column may run up to the full length of the line with its break; for every line
but the last that names the same offset as the start of the next line. A column
is any number, and the sum that its offset is may be one that no word holds; where
nothing else is said, such a sum stops the program.
-/

namespace LatexOrigins

/-- Offsets just after the line breaks of a byte sequence that starts at `base`. -/
def lineStartsFrom (base : Nat) : List UInt8 → List Nat
  | [] => []
  | b :: rest =>
    if b = 0x0a then (base + 1) :: lineStartsFrom (base + 1) rest
    else lineStartsFrom (base + 1) rest

def lineStarts (bytes : List UInt8) : List Nat := 0 :: lineStartsFrom 0 bytes

structure LinedText where
  text : String
  starts : Array Nat
  starts_eq : starts = (lineStarts (Text.bytes text)).toArray

namespace LinedText

def ofString (text : String) : LinedText := ⟨text, (lineStarts (Text.bytes text)).toArray, rfl⟩

@[simp] theorem text_ofString (text : String) : (ofString text).text = text := rfl

def size (t : LinedText) : Nat := t.text.utf8ByteSize

def isEmpty (t : LinedText) : Bool := t.size = 0

/-- The number of lines; a trailing break opens an empty last line. -/
def lineCount (t : LinedText) : Nat := t.starts.size

/-- The line an offset lies on: the last one that starts at or before it. -/
def lineAt (t : LinedText) (offset : Nat) : Nat := t.starts.countP (· ≤ offset) - 1

def lineStart (t : LinedText) (line : Nat) : Nat := t.starts.getD line 0

def lineEnd (t : LinedText) (line : Nat) : Nat := t.starts.getD (line + 1) t.size

def position (t : LinedText) (offset : Nat) : Position :=
  let line := t.lineAt offset
  ⟨offset, line, offset - t.lineStart line⟩

def positionAt (t : LinedText) (offset : Nat) : Except Fault Position :=
  if offset ≤ t.size then .ok (t.position offset) else .error (.offsetPastEnd offset t.size)

def lineColumnAt (t : LinedText) (offset : Nat) : Except Fault (Nat × Nat) :=
  (t.positionAt offset).map fun p => (p.line, p.column)

/-- The offset of a column, also of one that the line does not have. An offset of the text
is never too large, since no text is longer than words can count. -/
def columnOffset (t : LinedText) (overflow : Overflow) (line column : Nat) : Except Fault Nat :=
  if t.lineStart line + column ≤ t.size then .ok (t.lineStart line + column)
  else overflow.add (t.lineStart line) column

theorem columnOffset_of_le {t : LinedText} {overflow : Overflow} {line column : Nat}
    (h : t.lineStart line + column ≤ t.size) :
    t.columnOffset overflow line column = .ok (t.lineStart line + column) := if_pos h

theorem columnOffset_of_lt {t : LinedText} {overflow : Overflow} {line column : Nat}
    (h : t.lineStart line + column < wordLimit) :
    t.columnOffset overflow line column = .ok (t.lineStart line + column) := by
  unfold columnOffset
  split
  · rfl
  · exact Overflow.add_of_lt h

/-- The offset of a line and column. Nothing stops the column from running into
the lines that follow. -/
def offsetAt (t : LinedText) (line column : Nat) (overflow : Overflow := .stops) :
    Except Fault Nat :=
  if line < t.lineCount then do
    let offset ← t.columnOffset overflow line column
    if offset ≤ t.size then .ok offset else .error (.columnPastEnd line column)
  else
    .error (.noSuchLine line t.lineCount)

/-- The position that an address names. -/
def find? (t : LinedText) : Address → Option Position
  | .offset offset => if offset ≤ t.size then some (t.position offset) else none
  | .lineColumn line column =>
    if line < t.lineCount then
      let offset := t.lineStart line + column
      if offset ≤ t.lineEnd line then some ⟨offset, line, column⟩ else none
    else
      none

/-- The position that is found for an address: the one that it names, unless a sum is too
large on the way. -/
def check? (t : LinedText) (overflow : Overflow) : Address → Except Fault (Option Position)
  | .offset offset => .ok (t.find? (.offset offset))
  | .lineColumn line column =>
    if line < t.lineCount then do
      let offset ← t.columnOffset overflow line column
      pure (if offset ≤ t.lineEnd line then some ⟨offset, line, column⟩ else none)
    else
      .ok none

/-- The offset that a line and a column lead to is too large for a word. -/
def Overflows (t : LinedText) : Address → Prop
  | .offset _ => False
  | .lineColumn line column => line < t.lineCount ∧ t.size < t.lineStart line + column ∧
      wordLimit ≤ t.lineStart line + column

theorem check?_eq_find? {t : LinedText} {address : Address} (h : ¬ t.Overflows address)
    (overflow : Overflow) : t.check? overflow address = .ok (t.find? address) := by
  cases address with
  | offset => rfl
  | lineColumn line column =>
      by_cases hline : line < t.lineCount
      · have hsum : t.columnOffset overflow line column = .ok (t.lineStart line + column) := by
          by_cases hsize : t.lineStart line + column ≤ t.size
          · exact columnOffset_of_le hsize
          · exact columnOffset_of_lt
              (Nat.lt_of_not_le fun hlimit => h ⟨hline, Nat.lt_of_not_le hsize, hlimit⟩)
        rw [check?, find?, if_pos hline, if_pos hline, hsum]
        rfl
      · rw [check?, find?, if_neg hline, if_neg hline]

theorem check?_stops {t : LinedText} {address : Address} (h : t.Overflows address) :
    t.check? .stops address = .error .overflow := by
  cases address with
  | offset => exact h.elim
  | lineColumn line column =>
      obtain ⟨hline, hsize, hlimit⟩ := h
      rw [check?, if_pos hline, columnOffset, if_neg (Nat.not_le.2 hsize),
        Overflow.stops_add hlimit]
      rfl

def resolve (t : LinedText) (address : Address) (overflow : Overflow := .stops) :
    Except Fault Position := do
  match ← t.check? overflow address with
  | some p => .ok p
  | none => .error (.unaddressable address)

def line (t : LinedText) (n : Nat) : Except Fault String :=
  if n < t.lineCount then
    match Text.slice? t.text (t.lineStart n) (t.lineEnd n) with
    | some s => .ok s
    | none => .error .brokenSlice
  else
    .error (.noSuchLine n t.lineCount)

def line? (t : LinedText) (n : Nat) : Except Fault (Option String) :=
  if n < t.lineCount then some <$> t.line n else .ok none

end LinedText

end LatexOrigins
