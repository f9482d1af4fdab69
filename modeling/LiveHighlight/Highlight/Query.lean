import LiveHighlight.Capture.Fallback
import LiveHighlight.Config.Basic
import LiveHighlight.Highlight.Clock
import LiveHighlight.Span.Overlay
import LiveHighlight.Syntax.Engine

/-! Highlight queries: the captures of a range laid out as spans, within limits. A query that runs
out of its time is cut at the capture it has come to; what it has covered until then is final. -/

namespace LiveHighlight

/-- The limits of a single query. -/
structure QueryBounds where
  budget : Duration
  matchLimit : Nat
  /-- How far past its end a range may be extended. -/
  maxExtension : Nat
deriving DecidableEq, Repr, Inhabited

def Config.queryBounds (c : Config) : QueryBounds :=
  ⟨c.queryBudget, c.queryMatchLimit.toNat, c.maxExtensionBytes.toNat⟩

/-- What a query has found. -/
structure QueryAnswer where
  /-- The spans of the covered range. -/
  spans : List Span
  /-- The beginning of the range asked for, up to where the spans are final. -/
  covered : ByteRange
  /-- Whether the query neither ran out of time nor passed its match limit. -/
  complete : Bool
  /-- Whether the query passed its match limit. -/
  exceeded : Bool
  /-- The hull of all captures seen, which may reach out of the range. -/
  extent : ByteRange
deriving DecidableEq, Repr, Inhabited

/-- The answer for a text without captures. -/
def QueryAnswer.nothing (r : ByteRange) : QueryAnswer := ⟨[], r, true, false, ⟨r.start, r.start⟩⟩

/-- A compiled highlight query with what each of its capture names stands for. -/
structure CompiledQuery (E : SyntaxEngine) where
  query : E.Query
  captures : List (Option Capture)

namespace CompiledQuery

variable {E : SyntaxEngine}

/-- The highlight query of a text. -/
def compile (language : E.Language) (text : String) : Except String (CompiledQuery E) := do
  let query ← E.compile language text
  return ⟨query, (E.captureNames query).map Capture.resolve⟩

/-- What the name of a capture stands for; nothing for an unknown name. -/
def capture (q : CompiledQuery E) (index : Nat) : Option Capture := q.captures[index]?.join

/-- Every so many captures a query looks at the clock. -/
def lookInterval : Nat := 64

/-- The captures before the first look at the clock that finds the time over, and the capture of
that look. `seen` captures came before. -/
def takeInTime (late : Nat → Bool) (seen : Nat) :
    List QueryCapture → List QueryCapture × Option QueryCapture
  | [] => ([], none)
  | c :: cs =>
    if (seen + 1) % lookInterval = 0 ∧ late (seen + 1) then ([], some c)
    else
      let (taken, stopped) := takeInTime late (seen + 1) cs
      (c :: taken, stopped)

/-- A reported capture, if its name is known. -/
def raw (q : CompiledQuery E) (c : QueryCapture) : Option FoundCapture :=
  (q.capture c.index).map fun name => ⟨c.range, name, c.pattern⟩

/-- The answer of a query over a range. `elapsed` is the time since it began, by the number of
captures seen. -/
def run (q : CompiledQuery E) (tree : E.Tree) (d : Document) (r : ByteRange)
    (limits : QueryBounds) (elapsed : Nat → Duration) : QueryAnswer :=
  let late := fun seen => limits.budget.nanos ≤ (elapsed seen).nanos
  let (taken, stopped) := takeInTime late 0 (E.captures q.query tree d.chars r)
  let captures := taken.filterMap q.raw
  let stop := (stopped.map fun c => max r.start (min c.range.start r.stop)).getD r.stop
  let exceeded := E.exceeds q.query tree d.chars r limits.matchLimit
  { spans := Spans.overlay captures ⟨r.start, stop⟩
    covered := ⟨r.start, stop⟩
    complete := stopped.isNone && !exceeded
    exceeded
    extent := (ByteRange.hullOf (captures.map (·.range))).getD ⟨r.start, r.start⟩ }

/-- The end of the row in which the captures of an answer end, as far as the limits allow. -/
def extendedEnd (d : Document) (r : ByteRange) (limits : QueryBounds) (o : QueryAnswer) : Nat :=
  d.rowEnd (min (min o.extent.stop (r.stop + limits.maxExtension)) d.length)

/-- The answer of a query over a range that is extended once if a capture runs on past its end. -/
def runFollowing (q : CompiledQuery E) (tree : E.Tree) (d : Document) (r : ByteRange)
    (limits : QueryBounds) (clock : Clock) : QueryAnswer :=
  let first := q.run tree d r limits (clock.querying 0)
  if !first.complete ∨ first.extent.stop ≤ r.stop ∨ limits.maxExtension = 0 then first
  else
    let stop := extendedEnd d r limits first
    if stop ≤ r.stop then first
    else q.run tree d ⟨r.start, stop⟩ limits (clock.querying 1)

end CompiledQuery

end LiveHighlight
