import LiveHighlight.Span.Change
import LiveHighlight.Theme

/-! What a host is told: new attributes for a range, in runs that cover it without gaps. -/

namespace LiveHighlight

/-- A stretch of text with its capture, if it has one, and its attributes. -/
structure PaintRun where
  range : ByteRange
  capture : Option Capture
  attributes : Attributes
deriving DecidableEq, Repr, Inhabited

/-- New attributes for a range. -/
structure Repaint where
  range : ByteRange
  runs : List PaintRun
deriving DecidableEq, Repr, Inhabited

/-- The attributes that spans have in a theme, for a range. -/
def Repaint.ofSpans (theme : Theme) (spans : List Span) (r : ByteRange) :
    Repaint where
  range := r
  runs := (Spans.tiles spans r).map fun t => ⟨t.range, t.capture, theme.attributesFor t.capture⟩

end LiveHighlight
