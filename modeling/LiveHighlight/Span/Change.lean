import LiveHighlight.Span.Basic
import LiveHighlight.Text.Edit

/-! Changes to lists of spans: carried across an edit of the text, or overwritten in a range, and
what differs between two lists. -/

namespace LiveHighlight.Spans

/-- What an edit leaves of a span: the part before it, and the part after it moved along. -/
def survivors (e : TextEdit) (s : Span) : List Span :=
  let old := e.oldRange
  (if s.range.start < old.start then
    [⟨⟨s.range.start, min s.range.stop old.start⟩, s.capture⟩] else []) ++
  (if old.stop < s.range.stop then
    [⟨⟨e.shift (max s.range.start old.stop), e.shift s.range.stop⟩, s.capture⟩] else [])

/-- Spans of the old text as spans of the new one. The replaced bytes lose their captures. -/
def carry (spans : List Span) (e : TextEdit) : List Span :=
  merge (spans.flatMap (survivors e))

/-- The part of the first of some spans that comes before a range. -/
def headBefore (r : ByteRange) (spans : List Span) : List Span :=
  match spans.head? with
  | some s => if s.range.start < r.start then [⟨⟨s.range.start, r.start⟩, s.capture⟩] else []
  | none => []

/-- The part of the last of some spans that comes after a range. -/
def tailAfter (r : ByteRange) (spans : List Span) : List Span :=
  match spans.getLast? with
  | some s => if r.stop < s.range.stop then [⟨⟨r.stop, s.range.stop⟩, s.capture⟩] else []
  | none => []

/-- Ordered spans with all they say about a range replaced. The replacement lies inside it. -/
def overwrite (spans : List Span) (r : ByteRange) (replacement : List Span) :
    List Span :=
  let before := spans.takeWhile (·.range.stop ≤ r.start)
  let others := spans.dropWhile (·.range.stop ≤ r.start)
  let met := others.takeWhile (·.range.start < r.stop)
  let after := others.dropWhile (·.range.start < r.stop)
  append before (headBefore r met ++ replacement ++ tailAfter r met ++ after)

/-- A stretch of text with its capture, if it has one. -/
structure Tile where
  range : ByteRange
  capture : Option Capture
deriving DecidableEq, Repr, Inhabited

/-- Tiles for spans inside a range, from `start` on, with the gaps filled. -/
def tilesFrom (start stop : Nat) : List Span → List Tile
  | [] => if start < stop then [⟨⟨start, stop⟩, none⟩] else []
  | s :: rest =>
    let here : Tile := ⟨s.range, some s.capture⟩
    if start < s.range.start then
      ⟨⟨start, s.range.start⟩, none⟩ :: here :: tilesFrom s.range.stop stop rest
    else here :: tilesFrom s.range.stop stop rest

/-- The range covered completely by tiles. -/
def tiles (spans : List Span) (r : ByteRange) : List Tile :=
  tilesFrom r.start r.stop (inside spans r)

/-- The hull of `changed` and the places where two lists of tiles over the same bytes differ. Both
have been read up to `pos`. -/
def diffTiles (pos : Nat) (changed : Option ByteRange) :
    List Tile → List Tile → Option ByteRange
  | [], _ => changed
  | _ :: _, [] => changed
  | a :: as, b :: bs =>
    let stop := min a.range.stop b.range.stop
    let changed :=
      if a.capture ≠ b.capture ∧ pos < stop then some ⟨(changed.map (·.start)).getD pos, stop⟩
      else changed
    if a.range.stop = stop then
      if b.range.stop = stop then diffTiles stop changed as bs
      else diffTiles stop changed as (b :: bs)
    else if b.range.stop = stop then diffTiles stop changed (a :: as) bs
    else changed
termination_by as bs => as.length + bs.length

/-- The smallest range inside `r` outside of which two lists of spans agree on `r`; nothing if they
agree on all of it. -/
def changes (old new : List Span) (r : ByteRange) : Option ByteRange :=
  diffTiles r.start none (tiles old r) (tiles new r)

end LiveHighlight.Spans
