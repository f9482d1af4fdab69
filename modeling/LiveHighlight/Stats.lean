import LiveHighlight.Decimal.Fixed
import LiveHighlight.Duration

/-! What highlighting has cost so far: the latest durations of parses and queries, and counts of
the work done. -/

namespace LiveHighlight

/-- The number of durations a window keeps. -/
def windowSize : Nat := 120

/-- The latest durations of an operation, oldest first, with their sum, and the greatest duration
there ever was. -/
structure DurationWindow where
  samples : List Duration := []
  sum : Duration := .zero
  max : Duration := .zero
deriving DecidableEq, Repr, Inhabited

namespace DurationWindow

/-- The window without its oldest duration. -/
def evict (w : DurationWindow) : DurationWindow :=
  match w.samples with
  | [] => w
  | old :: rest => { w with samples := rest, sum := ⟨w.sum.nanos - old.nanos⟩ }

/-- The window with another duration, the oldest one making room for it. -/
def record (w : DurationWindow) (d : Duration) : DurationWindow :=
  let w := if windowSize ≤ w.samples.length then w.evict else w
  { samples := w.samples ++ [d]
    sum := ⟨w.sum.nanos + d.nanos⟩
    max := ⟨Nat.max w.max.nanos d.nanos⟩ }

def count (w : DurationWindow) : Nat := w.samples.length

/-- The mean of the window, to the nanosecond below; zero for an empty window. -/
def average (w : DurationWindow) : Duration := ⟨w.sum.nanos / w.samples.length⟩

/-- The latest duration. -/
def last (w : DurationWindow) : Duration := w.samples.getLast?.getD .zero

/-- The mean in milliseconds with two decimals. It is taken through seconds as a floating-point
number. -/
def averageText (w : DurationWindow) : String :=
  let d := w.average
  let seconds := d.seconds.toFloat + d.subsecond.toFloat / 1000000000.0
  Decimal.fixed 2 (seconds * 1000.0)

end DurationWindow

/-- The work of one document's highlighting. -/
structure WorkStats where
  parse : DurationWindow := {}
  query : DurationWindow := {}
  /-- Parses that began without a tree. -/
  fullParses : Nat := 0
  /-- Parses that began from an edited tree. -/
  incrementalParses : Nat := 0
  /-- Parses that were paused at their time limit. -/
  parseTimeouts : Nat := 0
  /-- Queries that stopped at their budget or passed their match limit. -/
  partialQueries : Nat := 0
  /-- Results of the worker that came too late. -/
  discardedResults : Nat := 0
  /-- Updates sent to the host. -/
  updatesEmitted : Nat := 0
deriving DecidableEq, Repr, Inhabited

namespace WorkStats

/-- The number of parses that came to an end. -/
def parseCount (s : WorkStats) : Nat := s.fullParses + s.incrementalParses

/-- All counts in one line. -/
def summary (s : WorkStats) : String :=
  "parses: " ++ toString s.fullParses ++ " full / " ++ toString s.incrementalParses ++
    " incremental (avg " ++ s.parse.averageText ++ "ms, " ++ toString s.parseTimeouts ++
    " timeouts) | queries: avg " ++ s.query.averageText ++ "ms, " ++ toString s.partialQueries ++
    " partial | updates: " ++ toString s.updatesEmitted ++ " | discarded: " ++
    toString s.discardedResults

end WorkStats

end LiveHighlight
