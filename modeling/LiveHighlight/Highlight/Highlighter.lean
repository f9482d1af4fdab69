import LiveHighlight.Highlight.Repaint
import LiveHighlight.Highlight.Worker
import LiveHighlight.Span.Change
import LiveHighlight.Text.Cursor

/-! Incremental highlighting of one text. The highlighter keeps the spans that the host shows. Every
operation gives the highlighter after it and the updates that it sends. -/

namespace LiveHighlight

/-- Where a highlighter stands. -/
inductive HighlightPhase
  /-- All that was sent fits the text. -/
  | idle
  /-- A range waits for the worker or for a parse that was paused. -/
  | pending (range : ByteRange)
  /-- Highlighting is off. -/
  | disabled
deriving DecidableEq, Repr, Inhabited

namespace HighlightPhase

/-- The range that waits. -/
def waiting : HighlightPhase → Option ByteRange
  | pending r => some r
  | _ => none

end HighlightPhase

/-- The highlighter of one text. -/
structure Highlighter (E : SyntaxEngine) where
  parser : DocumentParser E
  theme : Theme
  state : HighlightPhase := .idle
  /-- The spans that the host shows. -/
  spans : List Span := []
  /-- Grows with every edit and rebuild, so that older results are known as such. -/
  generation : Nat := 0
  worker : Option (Worker E) := none
  /-- Text whose attributes are to be sent even if its captures stay. -/
  unpainted : Option ByteRange := none
  /-- Ranges that a query gave up. -/
  deferred : List ByteRange := []
  reparsePending : Bool := false
  /-- The grammar that failed to load, while the text is plain for that. -/
  degraded : Option String := none
  lastRehighlight : Option ByteRange := none
  cursors : Cursors := {}

namespace Highlighter

variable {E : SyntaxEngine}

/-- A highlighter without a grammar. -/
def create (config : Config) (theme : Theme) : Highlighter E where
  parser := { config }
  theme
  worker := if config.backgroundQueries then some {} else none

def stats (h : Highlighter E) : WorkStats := h.parser.stats

def isDisabled (h : Highlighter E) : Bool := h.state == .disabled

/-- Whether a parse, a deferred range or a result of the worker is outstanding. -/
def hasPendingWork (h : Highlighter E) : Bool :=
  h.reparsePending || !h.deferred.isEmpty || h.state.waiting.isSome

/-- The whole of a text. -/
def wholeText (d : Document) : ByteRange := ⟨0, d.length⟩

/-- The rows that some ranges touch; the first row if there are none. -/
def affectedRows (ranges : List ByteRange) (d : Document) : ByteRange :=
  let r := (ByteRange.hullOf ranges).getD ⟨0, 0⟩
  ⟨(d.rowRange (d.rowAt (min r.start d.length))).start, d.rowEnd (min r.stop d.length)⟩

/-- Sends the attributes of a range. -/
def emit (h : Highlighter E) (r : ByteRange) : Highlighter E × List Repaint :=
  let stats := { h.stats with updatesEmitted := h.stats.updatesEmitted + 1 }
  ({ h with parser := { h.parser with stats } }, [.ofSpans h.theme h.spans r])

/-- What a query that covered a range has to paint even if its captures stay. -/
def paintable (covered unpainted : ByteRange) : Option ByteRange :=
  let start := max unpainted.start covered.start
  let stop := min unpainted.stop covered.stop
  if start ≤ stop then some ⟨start, stop⟩ else none

/-- What a query that covered a range leaves unpainted: what lies past the range, or all if the
range has none of it. -/
def stillUnpainted (covered unpainted : ByteRange) : Option ByteRange :=
  if covered.stop < unpainted.stop then
    some ⟨max covered.stop unpainted.start, unpainted.stop⟩
  else if unpainted.start < covered.start ∧ (paintable covered unpainted).isNone then some unpainted
  else none

/-- What a query leaves of its range for later, if it ran out of time. One that passed its match
limit leaves nothing. -/
def postponed (requested : ByteRange) (answer : QueryAnswer) : List ByteRange :=
  if !answer.complete ∧ answer.covered.stop < requested.stop then
    [⟨answer.covered.stop, requested.stop⟩]
  else []

/-- The highlighter with the answer of a query in its spans. -/
def absorb (h : Highlighter E) (requested : ByteRange) (answer : QueryAnswer) : Highlighter E :=
  { h with
    deferred := h.deferred ++ postponed requested answer
    spans := Spans.overwrite h.spans answer.covered answer.spans
    unpainted := h.unpainted.bind (stillUnpainted answer.covered)
    state := .idle }

/-- The range to send again for an answer: where captures change, and what is unpainted. -/
def repaintedBy (h : Highlighter E) (answer : QueryAnswer) : Option ByteRange :=
  let forced := h.unpainted.bind (paintable answer.covered)
  match Spans.changes h.spans answer.spans answer.covered with
  | some changed => some (ByteRange.hullWith forced changed)
  | none => forced

/-- Takes in the answer of a query over a range, and sends what that changes. -/
def apply (h : Highlighter E) (requested : ByteRange) (answer : QueryAnswer) :
    Highlighter E × List Repaint :=
  match h.repaintedBy answer with
  | some r => (h.absorb requested answer).emit r
  | none => (h.absorb requested answer, [])

/-- A highlighter after a query, with the range and the answer that it has yet to take in. There is
no answer if the query went to the worker or could not be made. -/
structure Asked (E : SyntaxEngine) where
  highlighter : Highlighter E
  answered : Option (ByteRange × QueryAnswer) := none

/-- Takes in the answer, if there is one. -/
def Asked.take (a : Asked E) : Highlighter E × List Repaint :=
  match a.answered with
  | some (requested, answer) => a.highlighter.apply requested answer
  | none => (a.highlighter, [])

/-- Queries a range: in the background if there is a worker and a tree, and else at once. -/
def ask (h : Highlighter E) (clock : Clock) (r : ByteRange) (d : Document) : Asked E :=
  let h := { h with lastRehighlight := some r }
  match h.worker, h.parser.target with
  | some worker, some target =>
    let job : QueryJob E := ⟨h.generation, target, d, r, h.parser.limits⟩
    { highlighter := { h with worker := some (worker.submit job), state := .pending r } }
  | _, _ =>
    let (parser, found) := h.parser.queryFollowing clock r d
    let h := { h with parser }
    match found with
    | .ok answer => ⟨h, some (r, answer)⟩
    | .error _ => { highlighter := h }

/-- The highlighter about to paint the whole text from a parse from scratch. -/
def startOver (h : Highlighter E) (d : Document) : Highlighter E :=
  { h with
    parser := h.parser.invalidate
    generation := h.generation + 1
    deferred := []
    reparsePending := false
    unpainted := some (wholeText d) }

/-- Parses from scratch and queries the whole text. -/
def rebuild (h : Highlighter E) (clock : Clock) (d : Document) : Asked E :=
  let h := h.startOver d
  let (parser, parsed) := h.parser.reparse clock d
  let h := { h with parser }
  match parsed with
  | .ok _ => h.ask clock (wholeText d) d
  | .error _ =>
    { highlighter := { h with reparsePending := true, state := .pending (wholeText d) } }

/-- What is unpainted after an edit: what was, moved along, and the inserted text. -/
def unpaintedAfter (e : TextEdit) (unpainted : Option ByteRange) : Option ByteRange :=
  let moved := unpainted.map e.carryRange
  let all := if e.newRange.isEmpty then moved else some (ByteRange.hullWith moved e.newRange)
  all.filter (!·.isEmpty)

/-- The highlighter moved along an edit of the text, before the new text is parsed. -/
def moveAlong (h : Highlighter E) (e : TextEdit) : Highlighter E :=
  { h with
    generation := h.generation + 1
    parser := h.parser.applyEdit e
    spans := Spans.carry h.spans e
    deferred := (h.deferred.map e.carryRange).filter (!·.isEmpty)
    unpainted := unpaintedAfter e h.unpainted }

/-- Parses the text after an edit and queries the rows that the edit touches. -/
def askChanged (h : Highlighter E) (clock : Clock) (e : TextEdit) (d : Document) : Asked E :=
  if h.isDisabled then { highlighter := h }
  else
    let carried := h.state.waiting.map e.carryRange
    let h := h.moveAlong e
    let (parser, parsed) := h.parser.reparse clock d
    let h := { h with parser }
    match parsed with
    | .ok invalidated =>
      h.ask clock (affectedRows (invalidated ++ carried.toList ++ [e.newRange]) d) d
    | .error _ =>
      { highlighter := { h with
          reparsePending := true
          state := .pending (ByteRange.hullWith carried e.newRange) } }

/-- Follows an edit that has been made; `d` is the text after it. -/
def textChanged (h : Highlighter E) (clock : Clock) (e : TextEdit) (d : Document) :
    Highlighter E × List Repaint :=
  (h.askChanged clock e d).take

/-- Changes the theme and paints the whole text from the spans there are. -/
def setTheme (h : Highlighter E) (theme : Theme) (d : Document) :
    Highlighter E × List Repaint :=
  let h := { h with theme }
  if h.isDisabled then (h, []) else h.emit (wholeText d)

/-- The highlighter with another grammar, or with none if that one does not load. -/
def load (h : Highlighter E) (g : Grammar E) : Highlighter E :=
  let (parser, loaded) := h.parser.setLanguage g
  { h with
    parser
    degraded := match loaded with | .ok _ => none | .error _ => some g.id }

/-- Loads a grammar and queries the whole text. -/
def askLanguage (h : Highlighter E) (clock : Clock) (g : Grammar E) (d : Document) : Asked E :=
  if h.isDisabled then { highlighter := h.load g } else (h.load g).rebuild clock d

/-- Changes the grammar and highlights anew. With a grammar that does not load the text is plain. -/
def setLanguage (h : Highlighter E) (clock : Clock) (g : Grammar E) (d : Document) :
    Highlighter E × List Repaint :=
  (h.askLanguage clock g d).take

/-- Takes all attributes back and stops highlighting. -/
def disable (h : Highlighter E) (d : Document) : Highlighter E × List Repaint :=
  if h.isDisabled then (h, [])
  else
    let h := { h with
      generation := h.generation + 1
      parser := h.parser.invalidate
      spans := []
      deferred := []
      unpainted := none
      reparsePending := false
      state := .disabled }
    h.emit (wholeText d)

/-- Queries the whole text, if highlighting was off. -/
def askEnabled (h : Highlighter E) (clock : Clock) (d : Document) : Asked E :=
  if h.isDisabled then { h with state := .idle }.rebuild clock d else { highlighter := h }

/-- Starts highlighting again. -/
def enable (h : Highlighter E) (clock : Clock) (d : Document) : Highlighter E × List Repaint :=
  (h.askEnabled clock d).take

def setCursors (h : Highlighter E) (positions : List Cursor) : Highlighter E :=
  { h with cursors := ⟨positions⟩ }

def setParseTimeout (h : Highlighter E) (micros : UInt64) : Highlighter E :=
  { h with parser := h.parser.setParseTimeout micros }

/-- A highlighter with the updates it has sent and the number of results it has taken in. -/
structure Polled (E : SyntaxEngine) where
  highlighter : Highlighter E
  updates : List Repaint := []
  applied : Nat := 0

/-- Whether a result of the worker is of the present generation. -/
def accepts (h : Highlighter E) (r : JobResult) : Bool :=
  r.generation == h.generation && !h.isDisabled

/-- The highlighter with so many more results counted as discarded. -/
def discard (h : Highlighter E) (count : Nat) : Highlighter E :=
  let stats := { h.stats with discardedResults := h.stats.discardedResults + count }
  { h with parser := { h.parser with stats } }

/-- Takes in a result of the worker if it is of the present generation, and else only counts it. -/
def receive (h : Highlighter E) (r : JobResult) : Polled E :=
  if h.accepts r then
    let done := h.apply r.range r.answer
    ⟨done.1, done.2, 1⟩
  else { highlighter := h.discard 1 }

/-- Takes in results one by one. -/
def receiveAll (h : Highlighter E) : List JobResult → Polled E
  | [] => { highlighter := h }
  | r :: rs =>
    let first := h.receive r
    let others := receiveAll first.highlighter rs
    ⟨others.highlighter, first.updates ++ others.updates, first.applied + others.applied⟩

/-- Takes in what the worker has finished. -/
def poll (h : Highlighter E) : Polled E :=
  match h.worker with
  | none => { highlighter := h }
  | some worker =>
    receiveAll { h with worker := some { worker with results := [] } } worker.results

/-- The highlighter after its worker has come to rest. -/
def settleWorker (h : Highlighter E) (clock : Clock) : Highlighter E :=
  { h with worker := h.worker.map (·.settle clock) }

/-- The highlighter after its worker has got a result ready. -/
def awaitResult (h : Highlighter E) (clock : Clock) : Highlighter E :=
  { h with worker := h.worker.map (·.awaitResult clock) }

/-- Takes in what the worker finishes, waiting for the first result. -/
def pollBlocking (h : Highlighter E) (clock : Clock) : Polled E := (h.awaitResult clock).poll

/-- Whether the worker holds idle work up. -/
def awaitsWorker (h : Highlighter E) : Bool := h.worker.isSome && h.state.waiting.isSome

/-- Does one piece of work up to its query: a parse that was paused first, then the deferred range
nearest to a cursor. -/
def askIdle (h : Highlighter E) (clock : Clock) (d : Document) : Asked E :=
  if h.isDisabled then { highlighter := h }
  else if h.reparsePending then
    let carried := h.state.waiting
    let (parser, parsed) := h.parser.reparse clock d
    let h := { h with parser }
    match parsed with
    | .ok invalidated =>
      { h with reparsePending := false }.ask clock
        (affectedRows (invalidated ++ carried.toList) d) d
    | .error _ => { highlighter := h }
  else if h.awaitsWorker then { highlighter := h }
  else
    match h.cursors.byProximity d h.deferred with
    | [] => { highlighter := h }
    | next :: others => { h with deferred := others }.ask clock next d

/-- Whether there is anything to do or to wait for when the host is idle. -/
def hasIdleWork (h : Highlighter E) : Bool :=
  !h.isDisabled && (h.reparsePending || h.awaitsWorker || !h.deferred.isEmpty)

/-- A highlighter after some idle work, the updates it has sent, and whether work remains. -/
structure Idled (E : SyntaxEngine) where
  highlighter : Highlighter E
  updates : List Repaint := []
  more : Bool

/-- Does one piece of work; work remains if there was some and more is pending. -/
def idle (h : Highlighter E) (clock : Clock) (d : Document) : Idled E :=
  let done := (h.askIdle clock d).take
  { highlighter := done.1, updates := done.2, more := h.hasIdleWork && done.1.hasPendingWork }

end Highlighter

end LiveHighlight
