import LiveHighlight.ByteRange
import LiveHighlight.Capture.Basic

/-! Lists of highlighted ranges. A list is read byte by byte through `captureAt`; in canonical form
it is ordered, its spans overlap nowhere, none is empty, and no two that touch have one capture. -/

namespace LiveHighlight

/-- A range of bytes with its capture. -/
structure Span where
  range : ByteRange
  capture : Capture
deriving DecidableEq, Repr, Inhabited

namespace Spans

/-- The capture that a list of spans gives a byte. -/
def captureAt (spans : List Span) (i : Nat) : Option Capture :=
  (spans.find? (·.range.contains i)).map (·.capture)

/-- The spans are ordered and overlap nowhere. -/
def Ordered (spans : List Span) : Prop :=
  spans.Pairwise fun a b => a.range.stop ≤ b.range.start

/-- Two neighbours that could be one span. -/
def Mergeable (a b : Span) : Prop :=
  a.range.stop = b.range.start ∧ a.capture = b.capture

instance : DecidableRel Mergeable := fun _ _ => inferInstanceAs (Decidable (_ ∧ _))

/-- The one way to write what spans say byte by byte. -/
structure Canonical (spans : List Span) : Prop where
  nonempty : ∀ s ∈ spans, s.range.start < s.range.stop
  ordered : Ordered spans
  unmerged : spans.Pairwise fun a b => ¬ Mergeable a b

/-- All spans lie inside a range. -/
def Within (r : ByteRange) (spans : List Span) : Prop :=
  ∀ s ∈ spans, r.start ≤ s.range.start ∧ s.range.stop ≤ r.stop

/-- Spans in reverse with one more at their end: dropped if it is empty, and merged into the last
one if the two can be one span. -/
def push (reversed : List Span) (s : Span) : List Span :=
  if s.range.isEmpty then reversed
  else
    match reversed with
    | last :: before =>
      if Mergeable last s then ⟨⟨last.range.start, s.range.stop⟩, s.capture⟩ :: before
      else s :: reversed
    | [] => [s]

/-- Spans followed by others, pushed one by one. -/
def append (front back : List Span) : List Span :=
  (back.foldl push front.reverse).reverse

/-- Spans pushed one by one. -/
def merge (spans : List Span) : List Span := append [] spans

/-- A span cut to a range. -/
def cut (r : ByteRange) (s : Span) : Span :=
  ⟨⟨max s.range.start r.start, min s.range.stop r.stop⟩, s.capture⟩

/-- The parts of ordered spans inside a range. -/
def inside (spans : List Span) (r : ByteRange) : List Span :=
  (((spans.dropWhile (·.range.stop ≤ r.start)).takeWhile (·.range.start < r.stop)).map
    (cut r)).filter (!·.range.isEmpty)

end Spans

end LiveHighlight
