import LiveHighlight.Proofs.Host

/-! The requests of a host, step by step. Each is a program over the places for sessions, the next
number to give and what the sinks have received, and one that fails keeps all that it did before.
The table of sessions answers every request as its program does. -/

namespace LiveHighlight

variable {E : SyntaxEngine}

/-- What a host can ask for. What the worker of a session does in between is counted in. -/
inductive Request (E : SyntaxEngine)
  | attach (document : Document) (language : String) (theme : Theme)
  | detach (id : Nat)
  | edit (id : Nat) (range : ByteRange) (text : String)
  | setTheme (id : Nat) (theme : Theme)
  | setLanguage (id : Nat) (language : String)
  | disable (id : Nat)
  | enable (id : Nat)
  | setCursors (id : Nat) (positions : List Cursor)
  | idle (id : Nat)
  | poll
  | work (id : Nat) (move : WorkerMove)

/-- What a host gets back if its request does not fail. -/
inductive Reply
  | attached (id : Nat)
  | detached (document : Document)
  | done
  | idled (more : Bool)
  | polled (applied : Nat)

/-- The updates for the sink of one session. -/
def addressed (id : Nat) (updates : List (Nat × Repaint)) : List Repaint :=
  updates.filterMap fun u => if u.1 = id then some u.2 else none

namespace SessionTable

/-- The table after a request, the updates sent to the sinks of its sessions, and the reply. -/
def respond (s : SessionTable E) (clock : Clock) :
    Request E → Except HighlightFailure (SessionTable E × List (Nat × Repaint) × Reply)
  | .attach d language theme => do
    let (s, id, updates) ← s.attach clock d language theme
    return (s, updates.map (id, ·), .attached id)
  | .detach id => do
    let (s, d) ← s.detach id
    return (s, [], .detached d)
  | .edit id r text => return named id (← s.edit clock id r text)
  | .setTheme id theme => return named id (← s.setTheme id theme)
  | .setLanguage id language => return named id (← s.setLanguage clock id language)
  | .disable id => return named id (← s.disable id)
  | .enable id => return named id (← s.enable clock id)
  | .setCursors id positions => return named id (← s.setCursors id positions)
  | .idle id => do
    let (s, updates, more) ← s.idle clock id
    return (s, updates.map (id, ·), .idled more)
  | .poll =>
    let (s, updates, applied) := s.poll
    return (s, updates, .polled applied)
  | .work id m => return named id (← s.highlight id fun h _ => (h.moveWorker clock m, []))
where
  named (id : Nat) (done : SessionTable E × List Repaint) :
      SessionTable E × List (Nat × Repaint) × Reply :=
    (done.1, done.2.map (id, ·), .done)

theorem edit_of_find {s : SessionTable E} {id : Nat} {session : Session E}
    (hfind : s.find id = .ok session) (clock : Clock) (r : ByteRange) (text : String) :
    s.edit clock id r text = (do
      let done ← session.edit clock r text
      return (s.put id done.1, done.2)) := by
  rw [edit, hfind]
  rfl

/-- Each session takes in what its own worker has finished. -/
theorem sessions_pollFrom (id : Nat) (sessions : List (Option (Session E))) :
    (pollFrom id sessions).1 = sessions.map (·.map fun session =>
      ⟨session.document, session.highlighter.poll.highlighter⟩) := by
  induction sessions generalizing id with
  | nil => rfl
  | cons place rest ih =>
    have hrest := ih (id + 1)
    cases place <;> exact congrArg (_ :: ·) hrest

end SessionTable

/-- The places for sessions by number, the next number, and the updates at the sinks of all sessions
there ever were, in the order in which they were sent. -/
structure Registry (E : SyntaxEngine) where
  provider : GrammarSource E
  config : Config := {}
  next : Nat := 0
  places : List (Option (Session E)) := []
  received : List (Nat × Repaint) := []

/-- A program over the registry. What it has changed stays changed if it fails. -/
abbrev Work (E : SyntaxEngine) := EStateM HighlightFailure (Registry E)

namespace Registry

def table (r : Registry E) : SessionTable E := ⟨r.provider, r.config, r.places⟩

/-- What the sink of one session has received. -/
def receivedBy (r : Registry E) (id : Nat) : List Repaint := addressed id r.received

/-! ### Programs -/

def find (id : Nat) : Work E (Session E) := do
  match (← get).places[id]?.join with
  | some session => return session
  | none => throw (.unknownSession id)

def grammar (language : String) : Work E (Grammar E) := do
  match (← get).provider language with
  | .ok g => return g
  | .error (.grammarNotFound id) => throw (.unsupportedLanguage id)
  | .error failure => throw failure

/-- Goes on with a result, or fails as it does. -/
def resultOf {α : Type} : Except HighlightFailure α → Work E α
  | .ok a => return a
  | .error failure => throw failure

def put (id : Nat) (session : Session E) : Work E Unit :=
  modify fun r => { r with places := r.places.set id (some session) }

def send (id : Nat) (updates : List Repaint) : Work E Unit :=
  modify fun r => { r with received := r.received ++ updates.map (id, ·) }

/-- The number is given before the session is made, and room for it only after that. -/
def attach (clock : Clock) (d : Document) (language : String) (theme : Theme) : Work E Nat := do
  let g ← grammar language
  let id := (← get).next
  modify fun r => { r with next := id + 1 }
  let done := (Highlighter.create (← get).config theme).setLanguage clock g d
  send id done.2
  modify fun r =>
    { r with places := r.places ++ List.replicate (id + 1 - r.places.length) none }
  put id ⟨d, done.1⟩
  return id

/-- The place is emptied before it is known whether there was a session. -/
def detach (id : Nat) : Work E Document := do
  let place := (← get).places[id]?.join
  modify fun r => { r with places := r.places.set id none }
  match place with
  | some session => return session.document
  | none => throw (.unknownSession id)

/-- The text is changed before the highlighter follows. -/
def edit (clock : Clock) (id : Nat) (range : ByteRange) (text : String) : Work E Unit := do
  let session ← find id
  let e ← resultOf (session.document.planEdit range text)
  let d ← resultOf (session.document.replace range text)
  put id ⟨d, session.highlighter⟩
  let done := session.highlighter.textChanged clock e d
  send id done.2
  put id ⟨d, done.1⟩

def highlight (id : Nat) (f : Highlighter E → Document → Highlighter E × List Repaint) :
    Work E Unit := do
  let session ← find id
  let done := f session.highlighter session.document
  send id done.2
  put id ⟨session.document, done.1⟩

def setLanguage (clock : Clock) (id : Nat) (language : String) : Work E Unit := do
  let g ← grammar language
  highlight id (·.setLanguage clock g)

def idle (clock : Clock) (id : Nat) : Work E Bool := do
  let session ← find id
  let done := session.highlighter.idle clock session.document
  send id done.updates
  put id ⟨session.document, done.highlighter⟩
  return done.more

/-- Takes in what the worker of one session has finished, if the session has not ended. -/
def pollAt (id : Nat) : Work E Nat := do
  match (← get).places[id]?.join with
  | none => return 0
  | some session =>
    let polled := session.highlighter.poll
    send id polled.updates
    put id ⟨session.document, polled.highlighter⟩
    return polled.applied

/-- Goes through so many places from one on. -/
def pollFrom (id : Nat) : Nat → Work E Nat
  | 0 => return 0
  | count + 1 => do
    let applied ← pollAt id
    let others ← pollFrom (id + 1) count
    return applied + others

def poll : Work E Nat := do pollFrom 0 (← get).places.length

def perform (clock : Clock) : Request E → Work E Reply
  | .attach d language theme => return .attached (← attach clock d language theme)
  | .detach id => return .detached (← detach id)
  | .edit id r text => do edit clock id r text; return .done
  | .setTheme id theme => do highlight id (·.setTheme theme); return .done
  | .setLanguage id language => do setLanguage clock id language; return .done
  | .disable id => do highlight id Highlighter.disable; return .done
  | .enable id => do highlight id (·.enable clock); return .done
  | .setCursors id positions => do
    highlight id fun h _ => (h.setCursors positions, [])
    return .done
  | .idle id => return .idled (← idle clock id)
  | .poll => return .polled (← poll)
  | .work id m => do
    highlight id fun h _ => (h.moveWorker clock m, [])
    return .done

/-- The registry after a request, with the reply or the failure. -/
def step (r : Registry E) (clock : Clock) (q : Request E) :
    EStateM.Result HighlightFailure (Registry E) Reply :=
  (perform clock q).run r

/-! ### Programs and the table -/

variable {r : Registry E} {clock : Clock} {id : Nat}

/-- The registry with other sessions and more updates received. -/
def after (r : Registry E) (s : SessionTable E) (updates : List (Nat × Repaint)) : Registry E :=
  { r with
    next := s.sessions.length
    places := s.sessions
    received := r.received ++ updates }

/-- How a program ends when the table gives a result: it takes over what the table has become, or
fails and leaves all as it is. -/
def ends {α : Type} (r : Registry E) :
    Except HighlightFailure (SessionTable E × List (Nat × Repaint) × α) →
      EStateM.Result HighlightFailure (Registry E) α
  | .ok (s, updates, a) => .ok a (r.after s updates)
  | .error failure => .error failure r

theorem find_bind {α : Type} (r : Registry E) (id : Nat) (f : Session E → Work E α) :
    (find id >>= f).run r =
      match r.table.find id with
      | .ok session => (f session).run r
      | .error failure => .error failure r := by
  show ((match r.places[id]?.join with
    | some session => pure session
    | none => throw (.unknownSession id) : Work E (Session E)) >>= f).run r = _
  rw [SessionTable.find, SessionTable.get?, show r.table.sessions = r.places from rfl]
  cases r.places[id]?.join <;> rfl

theorem grammar_bind {α : Type} (r : Registry E) (language : String) (f : Grammar E → Work E α) :
    (grammar language >>= f).run r =
      match r.table.grammar language with
      | .ok g => (f g).run r
      | .error failure => .error failure r := by
  show ((match r.provider language with
    | .ok g => pure g
    | .error (.grammarNotFound id) => throw (.unsupportedLanguage id)
    | .error failure => throw failure : Work E (Grammar E)) >>= f).run r = _
  rw [SessionTable.grammar, show r.table.provider = r.provider from rfl]
  cases r.provider language with
  | ok g => rfl
  | error failure => cases failure <;> rfl

/-- A change to the session of one number, and what its sink receives. -/
theorem after_put (hnext : r.next = r.places.length) (session : Session E)
    (updates : List Repaint) :
    r.after (r.table.put id session) (updates.map (id, ·)) =
      { r with
        places := r.places.set id (some session)
        received := r.received ++ updates.map (id, ·) } := by
  simp [after, SessionTable.put, table, hnext]

theorem highlight_run (hnext : r.next = r.places.length)
    (f : Highlighter E → Document → Highlighter E × List Repaint) :
    (do highlight id f; return Reply.done : Work E Reply).run r =
      r.ends (do return SessionTable.respond.named id (← r.table.highlight id f)) := by
  rw [highlight, bind_assoc, find_bind, SessionTable.highlight]
  cases r.table.find id with
  | error failure => rfl
  | ok session => exact congrArg (EStateM.Result.ok Reply.done) (after_put hnext _ _).symm

theorem setLanguage_run (hnext : r.next = r.places.length) (language : String) :
    (do setLanguage clock id language; return Reply.done : Work E Reply).run r =
      r.ends (do
        return SessionTable.respond.named id (← r.table.setLanguage clock id language)) := by
  rw [setLanguage, bind_assoc, grammar_bind, SessionTable.setLanguage]
  cases r.table.grammar language with
  | error failure => rfl
  | ok g => exact highlight_run hnext _

theorem edit_run (hnext : r.next = r.places.length) (range : ByteRange) (text : String) :
    (do edit clock id range text; return Reply.done : Work E Reply).run r =
      r.ends (do return SessionTable.respond.named id (← r.table.edit clock id range text)) := by
  rw [edit, bind_assoc, find_bind]
  cases hfind : r.table.find id with
  | error failure =>
    rw [SessionTable.edit, hfind]
    rfl
  | ok session =>
    rw [SessionTable.edit_of_find hfind, Session.edit]
    dsimp only
    cases session.document.planEdit range text with
    | error failure => rfl
    | ok e =>
      cases session.document.replace range text with
      | error failure => rfl
      | ok d =>
        refine congrArg (EStateM.Result.ok Reply.done) ?_
        refine Eq.trans ?_ (after_put hnext _ _).symm
        simp

theorem idle_run (hnext : r.next = r.places.length) :
    (do return Reply.idled (← idle clock id) : Work E Reply).run r =
      r.ends (do
        let (s, updates, more) ← r.table.idle clock id
        return (s, updates.map (id, ·), .idled more)) := by
  rw [idle, bind_assoc, find_bind, SessionTable.idle]
  cases r.table.find id with
  | error failure => rfl
  | ok session => exact congrArg (EStateM.Result.ok _) (after_put hnext _ _).symm

/-- Emptying a place that holds no session changes nothing. -/
theorem set_none_of_empty {places : List (Option (Session E))} (hempty : places[id]?.join = none) :
    places.set id none = places := by
  refine List.ext_getElem? fun i => ?_
  rw [List.getElem?_set]
  split
  · rename_i hi
    subst hi
    cases hplace : places[id]? with
    | none => simpa using hplace
    | some place =>
      rw [hplace] at hempty
      cases place with
      | none => simp [(List.getElem?_eq_some_iff.mp hplace).1]
      | some session => cases hempty
  · rfl

theorem detach_run (hnext : r.next = r.places.length) :
    (do return Reply.detached (← detach id) : Work E Reply).run r =
      r.ends (do
        let (s, d) ← r.table.detach id
        return (s, [], .detached d)) := by
  rw [SessionTable.detach, SessionTable.find, SessionTable.get?,
    show r.table.sessions = r.places from rfl]
  show ((match r.places[id]?.join with
    | some session => pure session.document
    | none => throw (.unknownSession id) : Work E Document) >>=
      fun d => pure (Reply.detached d)).run { r with places := r.places.set id none } = _
  cases hplace : r.places[id]?.join with
  | none =>
    rw [set_none_of_empty hplace]
    rfl
  | some session =>
    refine congrArg (EStateM.Result.ok _) ?_
    simp [after, hnext]

/-- A new session gets the place after the last one, whose number is the next one. -/
theorem after_append (hnext : r.next = r.places.length) (session : Session E)
    (updates : List Repaint) :
    r.after ⟨r.provider, r.config, r.places ++ [some session]⟩ (updates.map (r.next, ·)) =
      { r with
        next := r.next + 1
        places := (r.places ++ List.replicate (r.next + 1 - r.places.length) none).set r.next
          (some session)
        received := r.received ++ updates.map (r.next, ·) } := by
  simp [after, hnext]

theorem attach_run (hnext : r.next = r.places.length) (d : Document) (language : String)
    (theme : Theme) :
    (do return Reply.attached (← attach clock d language theme) : Work E Reply).run r =
      r.ends (do
        let (s, id, updates) ← r.table.attach clock d language theme
        return (s, updates.map (id, ·), .attached id)) := by
  rw [attach, bind_assoc, grammar_bind, SessionTable.attach]
  cases r.table.grammar language with
  | error failure => rfl
  | ok g =>
    have hstate := after_append hnext
      ⟨d, ((Highlighter.create r.config theme).setLanguage clock g d).1⟩
      ((Highlighter.create r.config theme).setLanguage clock g d).2
    show EStateM.Result.ok (Reply.attached r.next) _ =
      EStateM.Result.ok (Reply.attached r.places.length)
        (r.after _ (List.map (r.places.length, ·) _))
    rw [← hnext]
    exact congrArg (EStateM.Result.ok _) hstate.symm

theorem run_bind {α β : Type} {x : Work E α} {a : α} {r' : Registry E} (hx : x.run r = .ok a r')
    (f : α → Work E β) : (x >>= f).run r = (f a).run r' := by
  have hx : x r = .ok a r' := hx
  show EStateM.bind x f r = f a r'
  rw [EStateM.bind, hx]

theorem pollAt_run (r : Registry E) (id : Nat) : (pollAt id).run r =
    match r.places[id]?.join with
    | none => .ok 0 r
    | some session =>
      .ok session.highlighter.poll.applied
        { r with
          places := r.places.set id (some ⟨session.document, session.highlighter.poll.highlighter⟩)
          received := r.received ++ session.highlighter.poll.updates.map (id, ·) } := by
  show (match r.places[id]?.join with
    | none => pure 0
    | some session => _ : Work E Nat).run r = _
  cases r.places[id]?.join <;> rfl

/-- Going through the places from one on does what the table does with the sessions from there on.
-/
theorem pollFrom_run (r : Registry E) (front rest : List (Option (Session E))) :
    (pollFrom front.length rest.length).run { r with places := front ++ rest } =
      let polled := SessionTable.pollFrom front.length rest
      .ok polled.2.2 { r with
        places := front ++ polled.1
        received := r.received ++ polled.2.1 } := by
  -- The places behind have become what they are; the induction is on those still to come.
  induction rest generalizing front r with
  | nil =>
    show EStateM.Result.ok 0 _ = EStateM.Result.ok 0 { r with
      places := front ++ []
      received := r.received ++ [] }
    rw [List.append_nil r.received]
  | cons place rest ih =>
    have hplace : (front ++ place :: rest)[front.length]?.join = place := by simp
    have hat := pollAt_run { r with places := front ++ place :: rest } front.length
    rw [hplace] at hat
    have hcount : (place :: rest).length = rest.length + 1 := rfl
    cases place with
    | none =>
      have hrest := ih r (front ++ [none])
      simp only [List.length_append, List.length_singleton, List.append_assoc,
        List.singleton_append] at hrest
      rw [hcount, pollFrom, run_bind hat, run_bind hrest, Nat.zero_add]
      rfl
    | some session =>
      have hrest := ih
        { r with
          received := r.received ++ session.highlighter.poll.updates.map (front.length, ·) }
        (front ++ [some ⟨session.document, session.highlighter.poll.highlighter⟩])
      simp only [List.length_append, List.length_singleton, List.append_assoc,
        List.singleton_append] at hrest
      simp only [List.set_append_right _ _ (Nat.le_refl _), Nat.sub_self, List.set_cons_zero] at hat
      rw [hcount, pollFrom, run_bind hat, run_bind hrest]
      rfl

theorem poll_run (hnext : r.next = r.places.length) :
    (do return Reply.polled (← poll) : Work E Reply).run r =
      r.ends (let (s, updates, applied) := r.table.poll
        .ok (s, updates, .polled applied)) := by
  have hpoll : (poll : Work E Nat).run r = _ := pollFrom_run r [] r.places
  have hlength : (SessionTable.pollFrom 0 r.places).1.length = r.places.length := by
    rw [SessionTable.sessions_pollFrom, List.length_map]
  rw [run_bind hpoll]
  show EStateM.Result.ok _ _ = EStateM.Result.ok _ { r with
    next := (SessionTable.pollFrom 0 r.places).1.length
    places := (SessionTable.pollFrom 0 r.places).1
    received := r.received ++ (SessionTable.pollFrom 0 r.places).2.1 }
  rw [hlength, ← hnext]
  rfl

/-- A request comes to what the table makes of it. One that the table refuses has changed nothing.
-/
theorem step_eq (hnext : r.next = r.places.length) (clock : Clock) (q : Request E) :
    r.step clock q = r.ends (r.table.respond clock q) := by
  cases q with
  | attach d language theme => exact attach_run hnext d language theme
  | detach id => exact detach_run hnext
  | edit id range text => exact edit_run hnext range text
  | setTheme id theme => exact highlight_run hnext _
  | setLanguage id language => exact setLanguage_run hnext language
  | disable id => exact highlight_run hnext _
  | enable id => exact highlight_run hnext _
  | setCursors id positions => exact highlight_run hnext _
  | idle id => exact idle_run hnext
  | poll => exact poll_run hnext
  | work id m => exact highlight_run hnext _

end Registry

end LiveHighlight
