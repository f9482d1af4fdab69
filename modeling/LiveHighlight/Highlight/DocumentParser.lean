import LiveHighlight.Highlight.Query
import LiveHighlight.Language.Grammar
import LiveHighlight.Stats

/-! The parser of one document. It keeps the tree of the text in step with edits, remembers what no
parse has covered yet, and takes up a parse that was paused where it was left. -/

namespace LiveHighlight

/-- A grammar ready for use. -/
structure LoadedGrammar (E : SyntaxEngine) where
  language : E.Language
  query : CompiledQuery E

/-- Why a grammar's query does not compile is told by the grammar's name. -/
def Grammar.load {E : SyntaxEngine} (g : Grammar E) :
    Except HighlightFailure (Option (LoadedGrammar E)) :=
  match g.language with
  | none => .ok none
  | some language =>
    match CompiledQuery.compile language g.highlights with
    | .ok query => .ok (some ⟨language, query⟩)
    | .error reason => .error (.grammarLoadFailure g.id ("highlight query: " ++ reason))

/-- A parse that was paused: the text it reads and the tree it started from. -/
structure PausedParse (E : SyntaxEngine) where
  text : List Char
  base : Option E.Tree

/-- A tree with the query to run over it. -/
structure QueryTarget (E : SyntaxEngine) where
  tree : E.Tree
  query : CompiledQuery E

/-- The parser of a document. -/
structure DocumentParser (E : SyntaxEngine) where
  config : Config
  grammarId : String := "plaintext"
  grammar : Option (LoadedGrammar E) := none
  tree : Option E.Tree := none
  /-- The tree has been edited since the last parse. -/
  dirty : Bool := false
  /-- The inserted ranges of edits that no parse has covered. -/
  pendingEdits : List ByteRange := []
  paused : Option (PausedParse E) := none
  stats : WorkStats := {}

namespace DocumentParser

variable {E : SyntaxEngine}

/-- The parser without a tree, so that the next parse begins anew. -/
def invalidate (p : DocumentParser E) : DocumentParser E :=
  { p with tree := none, dirty := false, pendingEdits := [], paused := none }

/-- The parser with another grammar, and whether that could be loaded. If not, it has none. -/
def setLanguage (p : DocumentParser E) (g : Grammar E) :
    DocumentParser E × Except HighlightFailure Unit :=
  let p := { p.invalidate with grammar := none, grammarId := g.id }
  match g.load with
  | .ok grammar => ({ p with grammar }, .ok ())
  | .error e => (p, .error e)

/-- The parser after an edit of the text. A paused parse was reading the text before. -/
def applyEdit (p : DocumentParser E) (e : TextEdit) : DocumentParser E :=
  if p.grammar.isNone then p
  else
    { p with
      tree := p.tree.map (E.reshape · e.bytes)
      dirty := p.dirty || p.tree.isSome
      pendingEdits := p.pendingEdits.map e.carryRange ++ [e.newRange]
      paused := none }

/-- Whether a parse is paused at its limit. A limit of zero is none. -/
def pauses (p : DocumentParser E) (clock : Clock) (bytes : Nat) : Bool :=
  p.config.parseTimeoutMicros != 0 && p.config.parseTimeout.nanos < (clock.parsing bytes).nanos

/-- The tree of the text, parsed anew or on from where a parse was paused, and the ranges in which
what the text means may have changed. A parse that is paused leaves all else as it is. -/
def reparse (p : DocumentParser E) (clock : Clock) (d : Document) :
    DocumentParser E × Except HighlightFailure (List ByteRange) :=
  match p.grammar with
  | none => ({ p with dirty := false, pendingEdits := [] }, .ok [])
  | some grammar =>
    let parse := p.paused.getD ⟨d.chars, p.tree⟩
    let bytes := Utf8.byteLength parse.text
    if p.pauses clock bytes then
      ({ p with
        paused := some parse
        stats.parseTimeouts := p.stats.parseTimeouts + 1 },
        .error (.parseTimeout p.config.parseTimeout))
    else
      let tree := E.parse grammar.language parse.text
      let stats := { p.stats with parse := p.stats.parse.record (clock.parsing bytes) }
      let (changed, stats) :=
        match p.tree with
        | some old =>
          (E.difference old tree, { stats with incrementalParses := stats.incrementalParses + 1 })
        | none => ([⟨0, d.length⟩], { stats with fullParses := stats.fullParses + 1 })
      ({ p with tree := some tree, dirty := false, pendingEdits := [], paused := none, stats },
        .ok (changed ++ p.pendingEdits))

def limits (p : DocumentParser E) : QueryBounds := p.config.queryBounds

/-- The tree and query for a query elsewhere. -/
def target (p : DocumentParser E) : Option (QueryTarget E) := do
  return ⟨← p.tree, (← p.grammar).query⟩

/-- The answer of one way to query a range. A text without a tree is parsed first. -/
def queryWith (p : DocumentParser E) (clock : Clock) (r : ByteRange) (d : Document)
    (run : QueryTarget E → QueryAnswer) :
    DocumentParser E × Except HighlightFailure QueryAnswer :=
  match d.requireRange r with
  | .error e => (p, .error e)
  | .ok () =>
    if p.grammar.isNone then (p, .ok (.nothing r))
    else
      let (p, parsed) := if p.tree.isNone then p.reparse clock d else (p, .ok [])
      match parsed with
      | .error e => (p, .error e)
      | .ok _ =>
        match p.target with
        | none => (p, .ok (.nothing r))
        | some target =>
          let answer := run target
          let stats := { p.stats with query := p.stats.query.record (clock.querying 0 0) }
          let stats :=
            if answer.complete then stats
            else { stats with partialQueries := stats.partialQueries + 1 }
          ({ p with stats }, .ok answer)

/-- The answer of a query over a range. -/
def query (p : DocumentParser E) (clock : Clock) (r : ByteRange) (d : Document) :
    DocumentParser E × Except HighlightFailure QueryAnswer :=
  p.queryWith clock r d fun s => s.query.run s.tree d r p.limits (clock.querying 0)

/-- The answer of a query over a range that is extended if a capture runs on past its end. -/
def queryFollowing (p : DocumentParser E) (clock : Clock) (r : ByteRange) (d : Document) :
    DocumentParser E × Except HighlightFailure QueryAnswer :=
  p.queryWith clock r d fun s => s.query.runFollowing s.tree d r p.limits clock

/-- The parser with another limit for parses. -/
def setParseTimeout (p : DocumentParser E) (micros : UInt64) : DocumentParser E :=
  { p with config := { p.config with parseTimeoutMicros := micros } }

end DocumentParser

end LiveHighlight
