import LiveHighlight.Proofs.Sessions.Requests
import LiveHighlight.Proofs.Highlight.Commas

/-! Handles of sessions. They are issued in turn and never twice; whatever is asked of one session
leaves the others and their sinks alone, a request that fails leaves everything alone, and a session
that ends gives back its text with its own edits. -/

namespace LiveHighlight

variable {E : SyntaxEngine}

/-! ### Requests that are granted -/

/-- The session that a request names. -/
def Request.names : Request E → Option Nat
  | .attach .. => none
  | .detach id => some id
  | .edit id _ _ => some id
  | .setTheme id _ => some id
  | .setLanguage id _ => some id
  | .disable id => some id
  | .enable id => some id
  | .setCursors id _ => some id
  | .idle id => some id
  | .poll => none
  | .work id _ => some id

/-- Whether a request leaves the text of the session that it names as it is. -/
def Request.keepsText : Request E → Bool
  | .attach .. => false
  | .detach _ => false
  | .edit .. => false
  | .poll => false
  | _ => true

namespace SessionTable

variable {s s' : SessionTable E} {id other : Nat}

theorem get?_append (s : SessionTable E) (session : Session E) (id : Nat) :
    get? { s with sessions := s.sessions ++ [some session] } id =
      if id = s.sessions.length then some session else s.get? id := by
  simp only [get?, List.getElem?_append, List.getElem?_singleton]
  by_cases hlt : id < s.sessions.length
  · rw [if_pos hlt, if_neg (by omega)]
  · rw [if_neg hlt]
    by_cases hid : id = s.sessions.length
    · rw [if_pos (by omega), if_pos hid]
      rfl
    · rw [if_neg (by omega), if_neg hid, List.getElem?_eq_none (by omega)]

theorem get?_set (hlt : id < s.sessions.length) (place : Option (Session E)) (other : Nat) :
    get? { s with sessions := s.sessions.set id place } other =
      if other = id then place else s.get? other := by
  simp only [get?, List.getElem?_set]
  by_cases hid : other = id
  · rw [if_pos hid.symm, if_pos hid, if_pos hlt]
    rfl
  · rw [if_neg fun h => hid h.symm, if_neg hid]

theorem get?_poll (s : SessionTable E) (id : Nat) :
    s.poll.1.get? id = (s.get? id).map fun session =>
      ⟨session.document, session.highlighter.poll.highlighter⟩ := by
  show (pollFrom 0 s.sessions).1[id]?.join = _
  rw [sessions_pollFrom, List.getElem?_map, get?]
  rcases s.sessions[id]? with - | (- | session) <;> rfl

theorem addressed_append (id : Nat) (updates others : List (Nat × Repaint)) :
    addressed id (updates ++ others) = addressed id updates ++ addressed id others :=
  List.filterMap_append

theorem addressed_tagged (id other : Nat) (updates : List Repaint) :
    addressed other (updates.map (id, ·)) = if id = other then updates else [] := by
  rw [addressed, List.filterMap_map]
  by_cases hid : id = other
  · simp only [Function.comp_def, hid, if_true, List.filterMap_some]
  · rw [if_neg hid]
    simp [hid]

/-- The sink of each session receives what its own highlighter sends. -/
theorem addressed_pollFrom (id other : Nat) (sessions : List (Option (Session E))) :
    addressed other (pollFrom id sessions).2.1 =
      if id ≤ other then sessions[other - id]?.join.elim [] (·.highlighter.poll.updates)
      else [] := by
  induction sessions generalizing id with
  | nil => simp [pollFrom, addressed]
  | cons place rest ih =>
    have hfirst : addressed other (pollFrom id (place :: rest)).2.1 =
        (if id = other then place.elim [] (·.highlighter.poll.updates) else []) ++
          addressed other (pollFrom (id + 1) rest).2.1 := by
      cases place with
      | none =>
        show addressed other (pollFrom (id + 1) rest).2.1 = (if id = other then [] else []) ++ _
        rw [ite_self, List.nil_append]
      | some session =>
        rw [← addressed_tagged]
        exact addressed_append other _ _
    rw [hfirst, ih]
    rcases Nat.lt_trichotomy id other with hlt | rfl | hgt
    · obtain ⟨n, rfl⟩ : ∃ n, other = id + 1 + n := ⟨other - (id + 1), by omega⟩
      rw [if_neg (by omega), if_pos (by omega), if_pos (by omega), List.nil_append,
        show id + 1 + n - id = n + 1 by omega, Nat.add_sub_cancel_left, List.getElem?_cons_succ]
    · rw [if_pos rfl, if_neg (by omega), if_pos (Nat.le_refl _), Nat.sub_self,
        List.getElem?_cons_zero, List.append_nil]
      rfl
    · rw [if_neg (by omega), if_neg (by omega), if_neg (by omega), List.nil_append]

theorem lt_length_of_get? {session : Session E} (hsession : s.get? id = some session) :
    id < s.sessions.length := by
  rw [get?, Option.join_eq_some_iff] at hsession
  exact (List.getElem?_eq_some_iff.mp hsession).1

theorem find_eq_ok {session : Session E} : s.find id = .ok session ↔ s.get? id = some session := by
  unfold find
  cases s.get? id <;> simp

theorem count_eq_length_ids (s : SessionTable E) : s.count = s.ids.length := by
  have hplaces : s.sessions = (List.range s.sessions.length).map s.get? := by
    refine List.ext_getElem (by simp) fun i hi _ => ?_
    simp [get?, hi]
  calc s.count
      = (((List.range s.sessions.length).map s.get?).filter (·.isSome)).length :=
        congrArg (fun places => (places.filter (·.isSome)).length) hplaces
    _ = s.ids.length := by
        rw [List.filter_map, List.length_map]
        rfl

/-- What the table can become by a request that it grants. -/
inductive Granted (s : SessionTable E) :
    Request E → SessionTable E × List (Nat × Repaint) × Reply → Prop
  | attached (d : Document) (language : String) (theme : Theme) (h : Highlighter E)
      (updates : List Repaint) :
      Granted s (.attach d language theme)
        ({ s with sessions := s.sessions ++ [some ⟨d, h⟩] },
          updates.map (s.sessions.length, ·), .attached s.sessions.length)
  | detached {id : Nat} {session : Session E} (hsession : s.get? id = some session) :
      Granted s (.detach id)
        ({ s with sessions := s.sessions.set id none }, [], .detached session.document)
  | edited {id : Nat} {r : ByteRange} {text : String} {session : Session E} {d : Document}
      (hsession : s.get? id = some session) (hreplace : session.document.replace r text = .ok d)
      (h : Highlighter E) (updates : List Repaint) :
      Granted s (.edit id r text) (s.put id ⟨d, h⟩, updates.map (id, ·), .done)
  | changed {q : Request E} {id : Nat} {session : Session E} (hnames : q.names = some id)
      (hkeeps : q.keepsText = true) (hsession : s.get? id = some session) (h : Highlighter E)
      (updates : List Repaint) (reply : Reply) (hreply : ∀ id, reply ≠ .attached id) :
      Granted s q (s.put id ⟨session.document, h⟩, updates.map (id, ·), reply)
  | polled (applied : Nat) : Granted s .poll (s.poll.1, s.poll.2.1, .polled applied)

/-- A result that was gone on with was one. -/
theorem of_bind_eq_ok {α β : Type} {x : Except HighlightFailure α}
    {f : α → Except HighlightFailure β} {b : β} (h : x >>= f = .ok b) :
    ∃ a, x = .ok a ∧ f a = .ok b := by
  cases x with
  | error failure => cases h
  | ok a => exact ⟨a, rfl, h⟩

theorem granted_highlight {q : Request E} (hnames : q.names = some id)
    (hkeeps : q.keepsText = true)
    {f : Highlighter E → Document → Highlighter E × List Repaint}
    {done : SessionTable E × List Repaint} (hdone : s.highlight id f = .ok done) :
    s.Granted q (respond.named id done) := by
  obtain ⟨session, hfind, hdone⟩ := of_bind_eq_ok hdone
  cases hdone
  exact .changed hnames hkeeps (find_eq_ok.mp hfind) _ _ .done fun _ h => by cases h

/-- Whatever the table grants has come to its end by way of a session that there is, or of a new
one. -/
theorem granted_respond {clock : Clock} {q : Request E}
    {result : SessionTable E × List (Nat × Repaint) × Reply}
    (hresult : s.respond clock q = .ok result) : s.Granted q result := by
  -- Requests that change nothing but the highlighter of one session.
  have changed : ∀ {id} {f : Highlighter E → Document → Highlighter E × List Repaint},
      q.names = some id → q.keepsText = true →
      (do return respond.named id (← s.highlight id f)) = Except.ok result →
      s.Granted q result := by
    intro id f hnames hkeeps hresult
    obtain ⟨done, hdone, hresult⟩ := of_bind_eq_ok hresult
    cases hresult
    exact granted_highlight hnames hkeeps hdone
  cases q with
  | attach d language theme =>
    obtain ⟨_, hattach, hresult⟩ := of_bind_eq_ok hresult
    obtain ⟨g, -, hattach⟩ := of_bind_eq_ok hattach
    cases hattach
    cases hresult
    exact .attached d language theme _ _
  | detach id =>
    obtain ⟨_, hdetach, hresult⟩ := of_bind_eq_ok hresult
    obtain ⟨session, hfind, hdetach⟩ := of_bind_eq_ok hdetach
    cases hdetach
    cases hresult
    exact .detached (find_eq_ok.mp hfind)
  | edit id r text =>
    obtain ⟨_, hedit, hresult⟩ := of_bind_eq_ok hresult
    obtain ⟨session, hfind, hedit⟩ := of_bind_eq_ok hedit
    obtain ⟨_, hsession, hedit⟩ := of_bind_eq_ok hedit
    obtain ⟨e, -, hsession⟩ := of_bind_eq_ok hsession
    obtain ⟨d, hreplace, hsession⟩ := of_bind_eq_ok hsession
    cases hsession
    cases hedit
    cases hresult
    exact .edited (find_eq_ok.mp hfind) hreplace _ _
  | setTheme id theme => exact changed rfl rfl hresult
  | setLanguage id language =>
    obtain ⟨_, hset, hresult⟩ := of_bind_eq_ok hresult
    obtain ⟨g, -, hset⟩ := of_bind_eq_ok hset
    cases hresult
    exact granted_highlight (f := (·.setLanguage clock g)) rfl rfl hset
  | disable id => exact changed rfl rfl hresult
  | enable id => exact changed rfl rfl hresult
  | setCursors id positions => exact changed rfl rfl hresult
  | idle id =>
    obtain ⟨_, hidle, hresult⟩ := of_bind_eq_ok hresult
    obtain ⟨session, hfind, hidle⟩ := of_bind_eq_ok hidle
    cases hidle
    cases hresult
    exact .changed rfl rfl (find_eq_ok.mp hfind) _ _ _ fun _ h => by cases h
  | poll =>
    cases hresult
    exact .polled _
  | work id m => exact changed rfl rfl hresult

/-- A request that names a session or starts one leaves the others as they are and sends them
nothing. -/
theorem Granted.others {q : Request E} {result : SessionTable E × List (Nat × Repaint) × Reply}
    (hgranted : s.Granted q result) (hid : q.names = some id ∨ result.2.2 = .attached id)
    (hne : other ≠ id) :
    result.1.get? other = s.get? other ∧ addressed other result.2.1 = [] := by
  have unsent : ∀ updates : List Repaint, addressed other (updates.map (id, ·)) = [] := by
    intro updates
    rw [addressed_tagged, if_neg fun h => hne h.symm]
  have unchanged : ∀ {session : Session E} (place : Option (Session E)), s.get? id = some session →
      get? { s with sessions := s.sessions.set id place } other = s.get? other := by
    intro session place hsession
    rw [get?_set (lt_length_of_get? hsession), if_neg hne]
  cases hgranted with
  | attached d language theme h updates =>
    have hlast : s.sessions.length = id := by simpa [Request.names] using hid
    subst hlast
    refine ⟨?_, unsent updates⟩
    rw [get?_append, if_neg hne]
  | @detached named session hsession =>
    have hnamed : named = id := by simpa [Request.names] using hid
    subst hnamed
    exact ⟨unchanged none hsession, rfl⟩
  | @edited named r text session d hsession hreplace h updates =>
    have hnamed : named = id := by simpa [Request.names] using hid
    subst hnamed
    exact ⟨unchanged _ hsession, unsent updates⟩
  | @changed q named session hnames hkeeps hsession h updates reply hreply =>
    have hnamed : named = id := by simpa [hnames, hreply] using hid
    subst hnamed
    exact ⟨unchanged _ hsession, unsent updates⟩
  | polled applied => simp [Request.names] at hid

end SessionTable

/-! ### Entries and logs -/

/-- A request with how it ended. -/
structure Entry (E : SyntaxEngine) where
  request : Request E
  result : Except HighlightFailure Reply

namespace Entry

/-- The handle that was issued. -/
def issued : Entry E → Option Nat
  | ⟨_, .ok (.attached id)⟩ => some id
  | _ => none

/-- The handle that was given back. -/
def ended : Entry E → Option Nat
  | ⟨.detach id, .ok _⟩ => some id
  | _ => none

/-- The text that was attached under a handle. -/
def text (id : Nat) : Entry E → Option Document
  | ⟨.attach d _ _, .ok (.attached issued)⟩ => if issued = id then some d else none
  | _ => none

/-- The edit that was made of the text of a handle. -/
def change (id : Nat) : Entry E → Option (ByteRange × String)
  | ⟨.edit edited r text, .ok _⟩ => if edited = id then some (r, text) else none
  | _ => none

/-- An entry that neither issues a handle, gives one back nor changes a text. -/
structure Silent (e : Entry E) : Prop where
  issued : e.issued = none
  ended : e.ended = none
  text : ∀ id, e.text id = none
  change : ∀ id, e.change id = none

theorem silent_error (q : Request E) (failure : HighlightFailure) :
    Silent ⟨q, .error failure⟩ := by
  cases q <;> exact ⟨rfl, rfl, fun _ => rfl, fun _ => rfl⟩

theorem silent_keepsText {q : Request E} (hkeeps : q.keepsText = true) {reply : Reply}
    (hreply : ∀ id, reply ≠ .attached id) : Silent ⟨q, .ok reply⟩ := by
  have hissued : Entry.issued (⟨q, .ok reply⟩ : Entry E) = none := by
    cases reply with
    | attached id => exact (hreply id rfl).elim
    | _ => rfl
  cases q with
  | attach d language theme => cases hkeeps
  | detach id => cases hkeeps
  | edit id r text => cases hkeeps
  | poll => cases hkeeps
  | _ => exact ⟨hissued, rfl, fun _ => rfl, fun _ => rfl⟩

end Entry

/-- All requests there were, in turn. -/
abbrev Log (E : SyntaxEngine) := List (Entry E)

namespace Log

/-- The handles that were issued, in turn. -/
def issued (log : Log E) : List Nat := log.filterMap Entry.issued

/-- The handles that were given back. -/
def ended (log : Log E) : List Nat := log.filterMap Entry.ended

/-- The texts that were attached under a handle. -/
def texts (log : Log E) (id : Nat) : List Document := log.filterMap (Entry.text id)

/-- The edits that were made of the text of a handle, in turn. -/
def changes (log : Log E) (id : Nat) : List (ByteRange × String) :=
  log.filterMap (Entry.change id)

/-- A text with edits made in turn. -/
def edited (d : Document) (changes : List (ByteRange × String)) :
    Except HighlightFailure Document :=
  changes.foldlM (fun d change => d.replace change.1 change.2) d

variable (log : Log E) (e : Entry E) (id : Nat)

theorem filterMap_concat {α β : Type} (f : α → Option β) (l : List α) (a : α) :
    (l ++ [a]).filterMap f = l.filterMap f ++ (f a).toList := by
  rw [List.filterMap_append]
  cases hfa : f a <;> simp [hfa]

@[simp] theorem issued_concat : issued (log ++ [e]) = log.issued ++ e.issued.toList :=
  filterMap_concat _ _ _

@[simp] theorem ended_concat : ended (log ++ [e]) = log.ended ++ e.ended.toList :=
  filterMap_concat _ _ _

@[simp] theorem texts_concat : texts (log ++ [e]) id = log.texts id ++ (e.text id).toList :=
  filterMap_concat _ _ _

@[simp] theorem changes_concat : changes (log ++ [e]) id = log.changes id ++ (e.change id).toList :=
  filterMap_concat _ _ _

theorem edited_concat {d d' d'' : Document} {changes : List (ByteRange × String)} {r : ByteRange}
    {text : String} (hedited : edited d changes = .ok d') (hreplace : d'.replace r text = .ok d'') :
    edited d (changes ++ [(r, text)]) = .ok d'' := by
  rw [edited] at hedited
  rw [edited, List.foldlM_append, hedited]
  show edited d' [(r, text)] = _
  simp only [edited, List.foldlM_cons, List.foldlM_nil, hreplace]
  rfl

end Log

/-! ### Registry and log -/

namespace Registry

variable {r r' : Registry E} {log : Log E}

@[simp] theorem places_after (r : Registry E) (s : SessionTable E)
    (updates : List (Nat × Repaint)) : (r.after s updates).places = s.sessions := rfl

@[simp] theorem get?_after (r : Registry E) (s : SessionTable E) (updates : List (Nat × Repaint))
    (id : Nat) : (r.after s updates).table.get? id = s.get? id := rfl

/-- A registry that is in balance with its log: there is a place for every handle issued and a
session for those not given back, whose text is the one that was attached with the edits made of
it. -/
structure Balanced (r : Registry E) (log : Log E) : Prop where
  next : r.next = r.places.length
  issued : log.issued = List.range r.places.length
  live : ∀ id, (r.table.get? id).isSome = true ↔ id < r.places.length ∧ id ∉ log.ended
  fresh : ∀ id, r.places.length ≤ id → id ∉ log.ended ∧ log.texts id = [] ∧ log.changes id = []
  text : ∀ id session, r.table.get? id = some session →
    ∃ d, log.texts id = [d] ∧ Log.edited d (log.changes id) = .ok session.document

theorem balanced_opened (provider : GrammarSource E) (config : Config) :
    Balanced { provider, config } ([] : Log E) where
  next := rfl
  issued := rfl
  live id := by simp [table, SessionTable.get?]
  fresh id _ := ⟨List.not_mem_nil, rfl, rfl⟩
  text id session h := by simp [table, SessionTable.get?] at h

/-- Nothing gets out of balance while no handle and no text changes. -/
theorem Balanced.silent (hb : r.Balanced log) {e : Entry E} (he : e.Silent)
    (hnext : r'.next = r'.places.length) (hlength : r'.places.length = r.places.length)
    (hsame : ∀ id, (r'.table.get? id).map (·.document) = (r.table.get? id).map (·.document)) :
    r'.Balanced (log ++ [e]) where
  next := hnext
  issued := by simpa [he.issued, hlength] using hb.issued
  live id := by
    rw [Log.ended_concat, he.ended, hlength, Option.toList_none, List.append_nil, ← hb.live,
      ← Option.isSome_map, hsame, Option.isSome_map]
  fresh id hid := by simpa [he.ended, he.text, he.change] using hb.fresh id (hlength ▸ hid)
  text id session hsession := by
    have hdocument := hsame id
    rw [hsession, Option.map_some] at hdocument
    obtain ⟨before, hbefore, hsame⟩ := Option.map_eq_some_iff.mp hdocument.symm
    simpa [he.text, he.change, hsame] using hb.text id before hbefore

theorem Balanced.attached (hb : r.Balanced log) (d : Document) (language : String) (theme : Theme)
    (h : Highlighter E) (updates : List (Nat × Repaint)) :
    Balanced (r.after { r.table with sessions := r.places ++ [some ⟨d, h⟩] } updates)
      (log ++ [⟨.attach d language theme, .ok (.attached r.places.length)⟩]) := by
  have hget : ∀ id, SessionTable.get? { r.table with sessions := r.places ++ [some ⟨d, h⟩] } id =
      if id = r.places.length then some ⟨d, h⟩ else r.table.get? id :=
    fun id => r.table.get?_append ⟨d, h⟩ id
  -- The new handle lies past all that the log tells of.
  obtain ⟨hended, htexts, hchanges⟩ := hb.fresh r.places.length (Nat.le_refl _)
  refine ⟨rfl, ?_, fun id => ?_, fun id hid => ?_, fun id session hsession => ?_⟩
  · simp [Entry.issued, hb.issued, List.range_succ]
  · simp only [get?_after, hget, places_after, List.length_append, List.length_singleton,
      Log.ended_concat, Entry.ended, Option.toList_none, List.append_nil]
    by_cases hid : id = r.places.length
    · simp [hid, hended]
    · have hlt : id < r.places.length + 1 ↔ id < r.places.length := by omega
      rw [if_neg hid, hb.live, hlt]
  · simp only [places_after, List.length_append, List.length_singleton] at hid
    have hne : r.places.length ≠ id := by omega
    simpa [Entry.ended, Entry.text, Entry.change, hne] using hb.fresh id (by omega)
  · simp only [get?_after, hget] at hsession
    by_cases hid : id = r.places.length
    · rw [if_pos hid] at hsession
      cases hsession
      refine ⟨d, ?_, ?_⟩
      · simp [Entry.text, hid, htexts]
      · simp [Entry.change, hid, hchanges, Log.edited]
        rfl
    · rw [if_neg hid] at hsession
      have hne : r.places.length ≠ id := fun h => hid h.symm
      simpa [Entry.text, Entry.change, hne] using hb.text id session hsession

theorem Balanced.detached (hb : r.Balanced log) {id : Nat} {session : Session E}
    (hsession : r.table.get? id = some session) (updates : List (Nat × Repaint)) :
    Balanced (r.after { r.table with sessions := r.places.set id none } updates)
      (log ++ [⟨.detach id, .ok (.detached session.document)⟩]) := by
  have hlt : id < r.places.length := SessionTable.lt_length_of_get? hsession
  have hget : ∀ other, SessionTable.get? { r.table with sessions := r.places.set id none } other =
      if other = id then none else r.table.get? other :=
    SessionTable.get?_set (s := r.table) hlt none
  refine ⟨rfl, ?_, fun other => ?_, fun other hother => ?_,
    fun other session' hsession' => ?_⟩
  · simpa [Entry.issued] using hb.issued
  · simp only [get?_after, hget, places_after, List.length_set, Log.ended_concat, Entry.ended,
      Option.toList_some, List.mem_append, List.mem_singleton, not_or]
    by_cases hid : other = id
    · simp [hid]
    · rw [if_neg hid, hb.live]
      simp [hid]
  · simp only [places_after, List.length_set] at hother
    have hne : other ≠ id := by omega
    simpa [Entry.ended, Entry.text, Entry.change, hne] using hb.fresh other hother
  · simp only [get?_after, hget] at hsession'
    by_cases hid : other = id
    · rw [if_pos hid] at hsession'
      cases hsession'
    · rw [if_neg hid] at hsession'
      simpa [Entry.text, Entry.change] using hb.text other session' hsession'

theorem Balanced.edited (hb : r.Balanced log) {id : Nat} {session : Session E}
    (hsession : r.table.get? id = some session) {range : ByteRange} {text : String}
    {d : Document} (hreplace : session.document.replace range text = .ok d) (h : Highlighter E)
    (updates : List (Nat × Repaint)) :
    Balanced (r.after (r.table.put id ⟨d, h⟩) updates)
      (log ++ [⟨.edit id range text, .ok .done⟩]) := by
  have hlt : id < r.places.length := SessionTable.lt_length_of_get? hsession
  have hget : ∀ other, (r.table.put id ⟨d, h⟩).get? other =
      if other = id then some ⟨d, h⟩ else r.table.get? other :=
    SessionTable.get?_set (s := r.table) hlt (some ⟨d, h⟩)
  have hlength : (r.table.put id ⟨d, h⟩).sessions.length = r.places.length := List.length_set
  refine ⟨rfl, ?_, fun other => ?_, fun other hother => ?_, fun other session' hsession' => ?_⟩
  · simpa [Entry.issued, hlength] using hb.issued
  · simp only [get?_after, hget, places_after, hlength, Log.ended_concat, Entry.ended,
      Option.toList_none, List.append_nil]
    by_cases hid : other = id
    · rw [if_pos hid, hid, ← hb.live, hsession]
      rfl
    · rw [if_neg hid, hb.live]
  · rw [places_after, hlength] at hother
    have hne : id ≠ other := by omega
    simpa [Entry.ended, Entry.text, Entry.change, hne] using hb.fresh other hother
  · simp only [get?_after, hget] at hsession'
    by_cases hid : other = id
    · rw [if_pos hid] at hsession'
      cases hsession'
      obtain ⟨before, htexts, hedited⟩ := hb.text id session hsession
      refine ⟨before, ?_, ?_⟩
      · simpa [Entry.text, hid] using htexts
      · simpa [Entry.change, hid] using Log.edited_concat hedited hreplace
    · rw [if_neg hid] at hsession'
      have hne : id ≠ other := fun h => hid h.symm
      simpa [Entry.text, Entry.change, hne] using hb.text other session' hsession'

theorem Balanced.changed (hb : r.Balanced log) {q : Request E} {id : Nat} {session : Session E}
    (hkeeps : q.keepsText = true) (hsession : r.table.get? id = some session) (h : Highlighter E)
    (updates : List (Nat × Repaint)) {reply : Reply} (hreply : ∀ id, reply ≠ .attached id) :
    Balanced (r.after (r.table.put id ⟨session.document, h⟩) updates)
      (log ++ [⟨q, .ok reply⟩]) := by
  have hlt : id < r.places.length := SessionTable.lt_length_of_get? hsession
  refine hb.silent (Entry.silent_keepsText hkeeps hreply) rfl List.length_set fun other => ?_
  have hget : (r.table.put id ⟨session.document, h⟩).get? other =
      if other = id then some ⟨session.document, h⟩ else r.table.get? other :=
    SessionTable.get?_set (s := r.table) hlt _ other
  rw [get?_after, hget]
  by_cases hid : other = id
  · rw [if_pos hid, hid, hsession]
    rfl
  · rw [if_neg hid]

theorem Balanced.polled (hb : r.Balanced log) (applied : Nat) :
    Balanced (r.after r.table.poll.1 r.table.poll.2.1)
      (log ++ [⟨.poll, .ok (.polled applied)⟩]) := by
  refine hb.silent ⟨rfl, rfl, fun _ => rfl, fun _ => rfl⟩ rfl ?_ fun other => ?_
  · show (SessionTable.pollFrom 0 r.places).1.length = _
    rw [SessionTable.sessions_pollFrom, List.length_map]
  · rw [get?_after, SessionTable.get?_poll, Option.map_map]
    rfl

theorem Balanced.granted (hb : r.Balanced log) {q : Request E}
    {result : SessionTable E × List (Nat × Repaint) × Reply} (hgranted : r.table.Granted q result) :
    (r.after result.1 result.2.1).Balanced (log ++ [⟨q, .ok result.2.2⟩]) := by
  cases hgranted with
  | attached d language theme h updates => exact hb.attached d language theme h _
  | detached hsession => exact hb.detached hsession _
  | edited hsession hreplace h updates => exact hb.edited hsession hreplace h _
  | changed hnames hkeeps hsession h updates reply hreply =>
    exact hb.changed hkeeps hsession h _ hreply
  | polled applied => exact hb.polled applied

/-- A request that names a session or starts one touches no other session, nor its sink. -/
theorem step_others (hnext : r.next = r.places.length) {clock : Clock} {q : Request E}
    {reply : Reply} (hstep : r.step clock q = .ok reply r') {id : Nat}
    (hid : q.names = some id ∨ reply = .attached id) {other : Nat} (hne : other ≠ id) :
    r'.table.get? other = r.table.get? other ∧ r'.receivedBy other = r.receivedBy other := by
  rw [step_eq hnext] at hstep
  cases hresult : r.table.respond clock q with
  | error failure =>
    rw [hresult] at hstep
    cases hstep
  | ok result =>
    rw [hresult] at hstep
    cases hstep
    obtain ⟨hget, hupdates⟩ := (SessionTable.granted_respond hresult).others hid hne
    refine ⟨hget, ?_⟩
    show addressed other (r.received ++ result.2.1) = addressed other r.received
    rw [SessionTable.addressed_append, hupdates, List.append_nil]

end Registry

/-! ### Runs -/

/-- A registry with the log of all requests there were. -/
structure Books (E : SyntaxEngine) where
  registry : Registry E
  log : Log E := []

namespace Books

variable {b : Books E}

def opened (provider : GrammarSource E) (config : Config) : Books E :=
  { registry := { provider, config } }

def step (b : Books E) (clock : Clock) (q : Request E) : Books E :=
  match b.registry.step clock q with
  | .ok reply r => ⟨r, b.log ++ [⟨q, .ok reply⟩]⟩
  | .error failure r => ⟨r, b.log ++ [⟨q, .error failure⟩]⟩

def run (b : Books E) (steps : List (Clock × Request E)) : Books E :=
  steps.foldl (fun b step => b.step step.1 step.2) b

abbrev Balanced (b : Books E) : Prop := b.registry.Balanced b.log

theorem Balanced.step (hb : b.Balanced) (clock : Clock) (q : Request E) :
    (b.step clock q).Balanced := by
  have hstep := Registry.step_eq hb.next clock q
  unfold Books.step
  rw [hstep]
  cases hresult : b.registry.table.respond clock q with
  | ok result => exact Registry.Balanced.granted hb (SessionTable.granted_respond hresult)
  | error failure =>
    exact Registry.Balanced.silent hb (Entry.silent_error q failure) hb.next rfl fun _ => rfl

theorem Balanced.run (hb : b.Balanced) (steps : List (Clock × Request E)) :
    (b.run steps).Balanced := by
  induction steps generalizing b with
  | nil => exact hb
  | cons step steps ih => exact ih (hb.step step.1 step.2)

theorem balanced_run (provider : GrammarSource E) (config : Config)
    (steps : List (Clock × Request E)) : ((opened provider config).run steps).Balanced := by
  have hb : (opened provider config : Books E).Balanced := Registry.balanced_opened provider config
  exact hb.run steps

/-- Handles and sessions keep apart. Whatever is asked of a registry, with whatever source of
grammars, its handles are issued in turn from zero and never twice; the sessions that there are, and
the only ones to be had, are those attached and not detached, in that order. A request comes to what
the table of sessions makes of it, and one that fails leaves the registry as it is, the sinks and
the next handle included. One that names a session or starts one leaves the others and their sinks
alone, and polling brings each session what its own highlighter takes in. Detaching gives back the
text that was attached under the handle with the edits made of it, in turn, or fails if there is no
session. -/
theorem handles_isolated (provider : GrammarSource E) (config : Config)
    (steps : List (Clock × Request E)) :
    let b := (opened provider config).run steps
    let r := b.registry
    b.log.issued = List.range b.log.issued.length ∧
      r.table.ids = b.log.issued.filter (fun id => !b.log.ended.contains id) ∧
      (∀ id, (r.table.get? id).isSome = true ↔ id ∈ r.table.ids) ∧
      r.table.count = r.table.ids.length ∧
      ∀ clock, (∀ q, r.step clock q = r.ends (r.table.respond clock q) ∧
          (∀ failure r', r.step clock q = .error failure r' → r' = r) ∧
          ∀ reply r' id, r.step clock q = .ok reply r' →
            q.names = some id ∨ reply = .attached id → ∀ other, other ≠ id →
              r'.table.get? other = r.table.get? other ∧
                r'.receivedBy other = r.receivedBy other) ∧
        (∃ applied r', r.step clock .poll = .ok (.polled applied) r' ∧ ∀ id,
          (r'.table.get? id = (r.table.get? id).map fun session =>
            ⟨session.document, session.highlighter.poll.highlighter⟩) ∧
          r'.receivedBy id = r.receivedBy id ++
            (r.table.get? id).elim [] (·.highlighter.poll.updates)) ∧
        ∀ id, (id ∈ r.table.ids → ∃ before after r', b.log.texts id = [before] ∧
            Log.edited before (b.log.changes id) = .ok after ∧
            r.step clock (.detach id) = .ok (.detached after) r') ∧
          (id ∉ r.table.ids → r.step clock (.detach id) = .error (.unknownSession id) r) := by
  intro b r
  have hb : r.Balanced b.log := balanced_run provider config steps
  have hlength : b.log.issued.length = r.places.length := by
    rw [hb.issued, List.length_range]
  have hids : ∀ id, (r.table.get? id).isSome = true ↔ id ∈ r.table.ids := by
    intro id
    rw [SessionTable.ids, List.mem_filter, List.mem_range]
    exact ⟨fun hlive => ⟨((hb.live id).mp hlive).1, hlive⟩, fun h => h.2⟩
  have hstep := fun clock q => Registry.step_eq hb.next clock q
  refine ⟨hlength ▸ hb.issued, ?_, hids, r.table.count_eq_length_ids, fun clock =>
    ⟨fun q => ⟨hstep clock q, ?_, ?_⟩, ?_, fun id => ⟨fun hid => ?_, fun hid => ?_⟩⟩⟩
  · rw [hb.issued, SessionTable.ids]
    refine List.filter_congr fun id hid => ?_
    have hlive := hb.live id
    rw [List.mem_range] at hid
    rw [Bool.eq_iff_iff, hlive]
    simp [show id < r.places.length from hid]
  · intro failure r' herror
    rw [hstep] at herror
    cases hresult : r.table.respond clock q <;> rw [hresult] at herror <;> cases herror
    rfl
  · intro reply r' id hok hid other hne
    exact Registry.step_others hb.next hok hid hne
  · refine ⟨_, _, hstep clock .poll, fun id => ⟨SessionTable.get?_poll _ _, ?_⟩⟩
    show addressed id (r.received ++ (SessionTable.pollFrom 0 r.places).2.1) = _
    rw [SessionTable.addressed_append, SessionTable.addressed_pollFrom, if_pos (Nat.zero_le _)]
    rfl
  · obtain ⟨session, hsession⟩ := Option.isSome_iff_exists.mp ((hids id).mpr hid)
    obtain ⟨before, htexts, hedited⟩ := hb.text id session hsession
    refine ⟨before, session.document,
      r.after { r.table with sessions := r.places.set id none } [], htexts, hedited, ?_⟩
    rw [hstep, SessionTable.respond, SessionTable.detach, SessionTable.find_eq_ok.mpr hsession]
    rfl
  · have hnone : r.table.get? id = none := by
      rw [← Option.not_isSome_iff_eq_none, hids]
      exact hid
    rw [hstep, SessionTable.respond, SessionTable.detach, SessionTable.find, hnone]
    rfl

/-- A source that knows one language. -/
def commas : GrammarSource Commas.engine := fun language =>
  if language = "commas" then .ok (Commas.grammar "punctuation.delimiter")
  else .error (.grammarNotFound language)

/-- Three texts are attached, one in vain between them, and one of them is given back. -/
def requests : List (Clock × Request Commas.engine) := [
  (.steady, .attach Commas.pair "commas" (.plain "plain")),
  (.steady, .attach Commas.pair "tabs" (.plain "plain")),
  (.steady, .attach Commas.pair "commas" (.plain "plain")),
  (.steady, .edit 0 ⟨1, 2⟩ "34"),
  (.steady, .edit 1 ⟨9, 9⟩ "x"),
  (.steady, .edit 0 ⟨0, 0⟩ "["),
  (.steady, .detach 1),
  (.steady, .attach Commas.rows "commas" (.plain "plain"))]

/-- The first session gives back its text with both of its edits, and the second one is gone. -/
theorem handles_isolated_commas :
    let b := (opened commas {}).run requests
    b.log.issued = [0, 1, 2] ∧ b.registry.table.ids = [0, 2] ∧
      (∃ r', b.registry.step .steady (.detach 0) =
        .ok (.detached ⟨['[', '[', '3', '4', ',', '2', ']']⟩) r') ∧
      b.registry.step .steady (.detach 1) = .error (.unknownSession 1) b.registry := by
  intro b
  obtain ⟨-, -, -, -, hsteps⟩ := handles_isolated commas {} requests
  obtain ⟨-, -, hdetach⟩ := hsteps .steady
  have hids : b.registry.table.ids = [0, 2] := by decide +kernel
  refine ⟨by decide +kernel, hids, ?_, (hdetach 1).2 ?_⟩
  · have hmem : 0 ∈ b.registry.table.ids := by
      rw [hids]
      exact List.mem_cons_self ..
    obtain ⟨before, after, r', htexts, hedited, hstep⟩ := (hdetach 0).1 hmem
    have hbefore : b.log.texts 0 = [Commas.pair] := by decide +kernel
    have hafter : (Log.edited Commas.pair (b.log.changes 0)).toOption =
        some ⟨['[', '[', '3', '4', ',', '2', ']']⟩ := by decide +kernel
    cases hbefore.symm.trans htexts
    rw [hedited] at hafter
    cases hafter
    exact ⟨r', hstep⟩
  · show 1 ∉ b.registry.table.ids
    rw [hids]
    decide

end Books

end LiveHighlight
