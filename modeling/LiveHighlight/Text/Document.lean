import LiveHighlight.ByteRange
import LiveHighlight.Failure
import LiveHighlight.Text.Utf8

/-! A text that is edited in place. Offsets and columns count bytes, rows are separated by newlines
only, and an offset is valid if it lies inside the text and between two characters. -/

namespace LiveHighlight

open Utf8

/-- A row and the bytes of that row before a place in it. -/
structure Point where
  row : Nat
  column : Nat
deriving DecidableEq, Repr, Inhabited

/-- An offset with its point. -/
structure TextPosition where
  offset : Nat
  point : Point
deriving DecidableEq, Repr, Inhabited

/-- A text by its characters. -/
structure Document where
  chars : List Char
deriving DecidableEq, Repr, Inhabited

namespace Document

/-- The document without text. -/
def empty : Document := ⟨[]⟩

def ofString (text : String) : Document := ⟨text.toList⟩

def text (d : Document) : String := String.ofList d.chars

/-- The length of the text in bytes. -/
def length (d : Document) : Nat := byteLength d.chars

/-- The number of rows: one more than there are newlines. -/
def rowCount (d : Document) : Nat := newlines d.chars + 1

def isEmpty (d : Document) : Bool := d.length == 0

/-- Whether an offset is inside the text and splits no character. -/
def isValid (d : Document) (offset : Nat) : Bool := isBoundary d.chars offset

/-- The row of an offset; offsets past the end count as the end. -/
def rowAt (d : Document) (offset : Nat) : Nat := Utf8.rowAt d.chars offset

/-- A range is refused if it is reversed, out of bounds or splits a character. -/
def requireRange (d : Document) (r : ByteRange) : Except HighlightFailure Unit :=
  if r.start ≤ r.stop ∧ d.isValid r.start ∧ d.isValid r.stop then .ok ()
  else .error (.invalidRange r.start r.stop d.length)

/-- The text of a range. -/
def substring (d : Document) (r : ByteRange) : Except HighlightFailure String := do
  d.requireRange r
  return String.ofList (slice d.chars r.start r.stop)

/-- The bytes of a row with its newline; an empty range at the end for rows past the last one. -/
def rowRange (d : Document) (row : Nat) : ByteRange :=
  if row < d.rowCount then ⟨rowStart d.chars row, rowStart d.chars (row + 1)⟩
  else ⟨d.length, d.length⟩

/-- The bytes of a row without its newline, which every row but the last has. -/
def rowContent (d : Document) (row : Nat) : ByteRange :=
  let r := d.rowRange row
  if row + 1 < d.rowCount then ⟨r.start, r.stop - 1⟩ else r

/-- The row of an offset, with the bytes of that row. -/
def rowAround (d : Document) (offset : Nat) : Except HighlightFailure (Nat × ByteRange) := do
  d.requireRange ⟨offset, offset⟩
  return (d.rowAt offset, d.rowRange (d.rowAt offset))

/-- The point of an offset. -/
def pointAt (d : Document) (offset : Nat) : Except HighlightFailure Point := do
  let (row, range) ← d.rowAround offset
  return ⟨row, offset - range.start⟩

/-- The offset of a point. A column past the greatest offset is reported as that offset. -/
def offsetOf (d : Document) (p : Point) : Except HighlightFailure Nat :=
  let content := d.rowContent p.row
  let offset := content.start + p.column
  if p.row < d.rowCount ∧ offset ≤ content.stop ∧ d.isValid offset then .ok offset
  else .error (.invalidRange (min offset maxWord) (min offset maxWord) d.length)

/-- An offset with its point. -/
def positionAt (d : Document) (offset : Nat) : Except HighlightFailure TextPosition := do
  return ⟨offset, ← d.pointAt offset⟩

/-- The document with the text of a range replaced. -/
def replace (d : Document) (r : ByteRange) (text : String) : Except HighlightFailure Document := do
  d.requireRange r
  return ⟨takeBytes d.chars r.start ++ text.toList ++ dropBytes d.chars r.stop⟩

/-- The offset just past the row of an offset. -/
def rowEnd (d : Document) (offset : Nat) : Nat := (d.rowRange (d.rowAt offset)).stop

end Document

end LiveHighlight
