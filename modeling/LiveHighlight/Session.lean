import LiveHighlight.Highlight.Highlighter

/-! Editing sessions. A host attaches texts, reports edits and cursors, and is sent updates. Each
text is known by its number; numbers are given in turn and never twice. -/

namespace LiveHighlight

/-- A text with its highlighter. -/
structure Session (E : SyntaxEngine) where
  document : Document
  highlighter : Highlighter E

namespace Session

variable {E : SyntaxEngine}

/-- Replaces a range of the text. A range that is refused changes nothing. -/
def edit (s : Session E) (clock : Clock) (r : ByteRange) (text : String) :
    Except HighlightFailure (Session E × List Repaint) := do
  let e ← s.document.planEdit r text
  let document ← s.document.replace r text
  let done := s.highlighter.textChanged clock e document
  return (⟨document, done.1⟩, done.2)

/-- The session after something its highlighter does with the text. -/
def highlight (s : Session E)
    (f : Highlighter E → Document → Highlighter E × List Repaint) :
    Session E × List Repaint :=
  let done := f s.highlighter s.document
  ({ s with highlighter := done.1 }, done.2)

end Session

/-- All sessions of a host. The place of a session in the list is its number; a session that has
ended leaves a gap. -/
structure SessionTable (E : SyntaxEngine) where
  provider : GrammarSource E
  config : Config := {}
  sessions : List (Option (Session E)) := []

namespace SessionTable

variable {E : SyntaxEngine}

/-- The session of a number. -/
def get? (s : SessionTable E) (id : Nat) : Option (Session E) := s.sessions[id]?.join

/-- The numbers of the sessions that have not ended, in the order they were attached. -/
def ids (s : SessionTable E) : List Nat :=
  (List.range s.sessions.length).filter fun id => (s.get? id).isSome

/-- The number of sessions that have not ended. -/
def count (s : SessionTable E) : Nat := (s.sessions.filter (·.isSome)).length

def isEmpty (s : SessionTable E) : Bool := s.count == 0

/-- The session of a number, which must be known. -/
def find (s : SessionTable E) (id : Nat) : Except HighlightFailure (Session E) :=
  match s.get? id with
  | some session => .ok session
  | none => .error (.unknownSession id)

/-- The sessions with one of them changed. -/
def put (s : SessionTable E) (id : Nat) (session : Session E) : SessionTable E :=
  { s with sessions := s.sessions.set id (some session) }

/-- The grammar of a language that a host asks for. -/
def grammar (s : SessionTable E) (language : String) : Except HighlightFailure (Grammar E) :=
  match s.provider language with
  | .error (.grammarNotFound id) => .error (.unsupportedLanguage id)
  | other => other

/-- Attaches a text and highlights it. It gets the next number, unless its language has no grammar;
with a grammar that does not load it is plain. -/
def attach (s : SessionTable E) (clock : Clock) (document : Document) (language : String)
    (theme : Theme) : Except HighlightFailure (SessionTable E × Nat × List Repaint) := do
  let g ← s.grammar language
  let (highlighter, updates) := (Highlighter.create s.config theme).setLanguage clock g document
  let sessions := s.sessions ++ [some ⟨document, highlighter⟩]
  return ({ s with sessions }, s.sessions.length, updates)

/-- Ends a session and gives its text back. -/
def detach (s : SessionTable E) (id : Nat) :
    Except HighlightFailure (SessionTable E × Document) := do
  let session ← s.find id
  return ({ s with sessions := s.sessions.set id none }, session.document)

/-- Replaces a range of a session's text. -/
def edit (s : SessionTable E) (clock : Clock) (id : Nat) (r : ByteRange) (text : String) :
    Except HighlightFailure (SessionTable E × List Repaint) := do
  let (session, updates) ← (← s.find id).edit clock r text
  return (s.put id session, updates)

/-- The sessions after something the highlighter of one of them does with its text. -/
def highlight (s : SessionTable E) (id : Nat)
    (f : Highlighter E → Document → Highlighter E × List Repaint) :
    Except HighlightFailure (SessionTable E × List Repaint) := do
  let (session, updates) := (← s.find id).highlight f
  return (s.put id session, updates)

def setTheme (s : SessionTable E) (id : Nat) (theme : Theme) :
    Except HighlightFailure (SessionTable E × List Repaint) :=
  s.highlight id (·.setTheme theme)

/-- Changes the language of a session. The grammar is looked up before the session. -/
def setLanguage (s : SessionTable E) (clock : Clock) (id : Nat) (language : String) :
    Except HighlightFailure (SessionTable E × List Repaint) := do
  let g ← s.grammar language
  s.highlight id (·.setLanguage clock g)

def disable (s : SessionTable E) (id : Nat) :
    Except HighlightFailure (SessionTable E × List Repaint) :=
  s.highlight id Highlighter.disable

def enable (s : SessionTable E) (clock : Clock) (id : Nat) :
    Except HighlightFailure (SessionTable E × List Repaint) :=
  s.highlight id (·.enable clock)

def setCursors (s : SessionTable E) (id : Nat) (positions : List Cursor) :
    Except HighlightFailure (SessionTable E × List Repaint) :=
  s.highlight id fun h _ => (h.setCursors positions, [])

/-- Does one piece of work for a session; gives the updates sent and whether work remains. -/
def idle (s : SessionTable E) (clock : Clock) (id : Nat) :
    Except HighlightFailure (SessionTable E × List Repaint × Bool) := do
  let session ← s.find id
  let done := session.highlighter.idle clock session.document
  return (s.put id ⟨session.document, done.highlighter⟩, done.updates, done.more)

/-- Takes in what the workers of some sessions have finished; gives the updates sent by each
session, beginning with the one of number `id`, and how many results were taken in. -/
def pollFrom (id : Nat) : List (Option (Session E)) →
    List (Option (Session E)) × List (Nat × Repaint) × Nat
  | [] => ([], [], 0)
  | none :: rest =>
    let (rest, updates, applied) := pollFrom (id + 1) rest
    (none :: rest, updates, applied)
  | some session :: rest =>
    let polled := session.highlighter.poll
    let (rest, updates, applied) := pollFrom (id + 1) rest
    (some ⟨session.document, polled.highlighter⟩ :: rest,
      polled.updates.map (id, ·) ++ updates, polled.applied + applied)

/-- Takes in what the workers of all sessions have finished. -/
def poll (s : SessionTable E) : SessionTable E × List (Nat × Repaint) × Nat :=
  let (sessions, updates, applied) := pollFrom 0 s.sessions
  ({ s with sessions }, updates, applied)

/-- The sessions after their workers have come to rest. -/
def settleWorkers (s : SessionTable E) (clock : Clock) : SessionTable E :=
  { s with
    sessions := s.sessions.map (·.map fun session =>
      { session with highlighter := session.highlighter.settleWorker clock }) }

/-- Whether a session has work outstanding. -/
def hasPendingWork (s : SessionTable E) (id : Nat) : Bool :=
  (s.get? id).any (·.highlighter.hasPendingWork)

end SessionTable

end LiveHighlight
