import LiveHighlight.Text.Document

/-! Edits of a text, worked out before they are made: where the replaced text begins and ends, and
where its replacement will end. An edit carries offsets of the old text over to the new one. -/

namespace LiveHighlight

open Utf8

/-- An edit in offsets alone: the bytes from `start` to `oldEnd` give way to those from `start` to
`newEnd`. -/
structure ByteEdit where
  start : Nat
  oldEnd : Nat
  newEnd : Nat
deriving DecidableEq, Repr, Inhabited

/-- An edit of a text. -/
structure TextEdit where
  start : TextPosition
  oldEnd : TextPosition
  newEnd : TextPosition
  replacement : String
deriving DecidableEq, Repr, Inhabited

namespace TextEdit

/-- The replaced bytes, in offsets of the old text. -/
def oldRange (e : TextEdit) : ByteRange := ⟨e.start.offset, e.oldEnd.offset⟩

/-- The inserted bytes, in offsets of the new text. -/
def newRange (e : TextEdit) : ByteRange := ⟨e.start.offset, e.newEnd.offset⟩

/-- By how much the text grows. -/
def delta (e : TextEdit) : Int := Int.ofNat e.newEnd.offset - Int.ofNat e.oldEnd.offset

/-- The edit in offsets alone. -/
def bytes (e : TextEdit) : ByteEdit := ⟨e.start.offset, e.oldEnd.offset, e.newEnd.offset⟩

/-- The new offset of one at or past the replaced text. -/
def shift (e : TextEdit) (offset : Nat) : Nat :=
  wrapWord (offset - e.oldEnd.offset + e.newEnd.offset)

/-- The new offset of an old one; those inside the replaced text go to the end of the new text. -/
def carryOffset (e : TextEdit) (offset : Nat) : Nat :=
  if offset ≤ e.start.offset then offset
  else if offset < e.oldEnd.offset then e.newEnd.offset
  else e.shift offset

/-- The new range of an old one. A range that reaches into the replaced text takes in all of the
inserted text. -/
def carryRange (e : TextEdit) (r : ByteRange) : ByteRange :=
  let start :=
    if r.start < e.oldEnd.offset then min r.start e.start.offset else e.carryOffset r.start
  ⟨start, max (e.carryOffset r.stop) start⟩

end TextEdit

/-- The point reached from another one by writing a text. -/
def Point.advance (p : Point) (text : List Char) : Point :=
  let rows := newlines text
  ⟨p.row + rows, if rows = 0 then p.column + byteLength text else lastRowLength text⟩

/-- The edit that replaces a range of a document by a text. -/
def Document.planEdit (d : Document) (r : ByteRange) (text : String) :
    Except HighlightFailure TextEdit := do
  d.requireRange r
  let start ← d.positionAt r.start
  let oldEnd ← d.positionAt r.stop
  let written := text.toList
  return {
    start, oldEnd
    newEnd := ⟨r.start + byteLength written, start.point.advance written⟩
    replacement := text }

end LiveHighlight
