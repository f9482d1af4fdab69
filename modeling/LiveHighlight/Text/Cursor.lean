import LiveHighlight.Text.Document

/-! Where the host's cursors are. Cursors are only read, to choose which postponed work comes
first. -/

namespace LiveHighlight

/-- A cursor's row and the bytes of that row before it. Either may lie outside the text. -/
structure Cursor where
  line : Nat
  column : Nat
deriving DecidableEq, Repr, Inhabited

namespace Cursor

/-- Cursors are ordered by row, then by column. -/
def le (a b : Cursor) : Bool :=
  a.line < b.line || (a.line == b.line && a.column ≤ b.column)

/-- The last valid offset from `offset` down to `floor`. -/
def lastValid (d : Document) (floor : Nat) : Nat → Nat
  | 0 => 0
  | offset + 1 =>
    if floor < offset + 1 ∧ !d.isValid (offset + 1) then lastValid d floor offset else offset + 1

/-- The cursor's offset: no further than the end of its row, and before a character it splits. A
row past the last one is taken for the end of the text. -/
def toOffset (d : Document) (c : Cursor) : Nat :=
  let content := d.rowContent c.line
  lastValid d content.start (min (content.start + c.column) content.stop)

/-- The cursor at a point. -/
def ofPoint (p : Point) : Cursor := ⟨p.row, p.column⟩

end Cursor

/-- The cursors of a host, the primary one first. -/
structure Cursors where
  positions : List Cursor := []
deriving DecidableEq, Repr, Inhabited

namespace Cursors

/-- The number of rows from `row` to the nearest of the rows `first` to `last`. -/
def rowDistance (first last row : Nat) : Nat :=
  if row < first then first - row else if last < row then row - last else 0

/-- The rows from a range's first byte to its last one. -/
def rowsOf (d : Document) (r : ByteRange) : Nat × Nat :=
  (d.rowAt (min r.start d.length), d.rowAt (min (max (r.stop - 1) r.start) d.length))

/-- The rows between a range and the nearest cursor; the greatest offset without cursors. -/
def distanceTo (cursors : Cursors) (d : Document) (r : ByteRange) : Nat :=
  let (first, last) := rowsOf d r
  let distances := cursors.positions.map fun c => rowDistance first last (d.rowAt (c.toOffset d))
  distances.min?.getD maxWord

/-- The order of work: nearest first, and the earlier range first at equal distance. -/
def before (a b : Nat × ByteRange) : Bool :=
  a.1 < b.1 || (a.1 == b.1 && a.2.start ≤ b.2.start)

/-- Ranges in the order of work. Equal ones keep their order. -/
def byProximity (cursors : Cursors) (d : Document) (ranges : List ByteRange) :
    List ByteRange :=
  ((ranges.map fun r => (cursors.distanceTo d r, r)).mergeSort before).map Prod.snd

end Cursors

end LiveHighlight
