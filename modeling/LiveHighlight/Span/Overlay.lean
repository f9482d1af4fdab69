import LiveHighlight.Span.Basic

/-! Nested captures laid on top of each other. An inner capture covers the one around it, of
captures of one range the one with the lowest pattern counts, and a capture that runs past the end
of the one it begins in is cut there. -/

namespace LiveHighlight

/-- A capture reported by a query, with the pattern that reported it. -/
structure FoundCapture where
  range : ByteRange
  capture : Capture
  pattern : Nat
deriving DecidableEq, Repr, Inhabited

namespace FoundCapture

/-- Whether a capture has a byte in a range, or around it. -/
def meets (clip : ByteRange) (c : FoundCapture) : Bool :=
  !c.range.isEmpty && clip.start < c.range.stop && c.range.start < clip.stop

/-- Outer captures come before inner ones: by start, then the longer first, then by pattern. -/
def before (a b : FoundCapture) : Bool :=
  a.range.start < b.range.start ||
    (a.range.start == b.range.start &&
      (b.range.stop < a.range.stop ||
        (a.range.stop == b.range.stop && a.pattern ≤ b.pattern)))

/-- The first of neighbours with the same range. -/
def dedup : List FoundCapture → List FoundCapture
  | [] => []
  | c :: cs =>
    match dedup cs with
    | next :: rest => if next.range = c.range then c :: rest else c :: next :: rest
    | [] => [c]

/-- The captures that count for a range, outer ones first. -/
def layers (captures : List FoundCapture) (clip : ByteRange) : List FoundCapture :=
  dedup ((captures.filter (meets clip)).mergeSort before)

end FoundCapture

namespace Spans

/-- A capture that has begun and not ended, with the end it is cut to. -/
structure OpenCapture where
  stop : Nat
  capture : Capture
deriving DecidableEq, Repr, Inhabited

/-- How far captures have been laid out: the spans so far in reverse, the offset they reach, and
the open captures, the innermost first. -/
structure Layout where
  reversed : List Span
  reached : Nat
  openCaptures : List OpenCapture
deriving DecidableEq, Repr, Inhabited

namespace Layout

/-- The layout with a capture laid from the offset reached so far to `stop`. -/
def lay (l : Layout) (stop : Nat) (capture : Capture) : Layout :=
  { l with
    reversed := push l.reversed ⟨⟨l.reached, stop⟩, capture⟩
    reached := max l.reached stop }

/-- The layout with those of the given captures closed, innermost first, that do not reach past
`limit`; all of them without a limit. -/
def close (limit : Option Nat) (l : Layout) : List OpenCapture → Layout
  | [] => { l with openCaptures := [] }
  | top :: rest =>
    if limit.any (· < top.stop) then { l with openCaptures := top :: rest }
    else close limit (l.lay top.stop top.capture) rest

/-- The layout with the next capture opened. -/
def enter (clip : ByteRange) (l : Layout) (c : FoundCapture) : Layout :=
  let start := max c.range.start clip.start
  let l := l.close (some start) l.openCaptures
  let l : Layout :=
    match l.openCaptures with
    | top :: _ => l.lay start top.capture
    | [] => { l with reached := max l.reached start }
  let stop := min c.range.stop clip.stop
  let stop :=
    match l.openCaptures with
    | top :: _ => min stop top.stop
    | [] => stop
  if start < stop then { l with openCaptures := ⟨stop, c.capture⟩ :: l.openCaptures } else l

end Layout

/-- The spans that captures leave inside a range. -/
def overlay (captures : List FoundCapture) (clip : ByteRange) : List Span :=
  let l := (FoundCapture.layers captures clip).foldl (Layout.enter clip) ⟨[], clip.start, []⟩
  (l.close none l.openCaptures).reversed.reverse

end Spans

end LiveHighlight
