import LiveHighlight.Proofs.Highlight.Results
import LiveHighlight.Proofs.Text.Edits
import LiveHighlight.Session

/-! A host at work. A run is a list of actions, each with what the clock shows while it is done:
what the host asks of its session, and what the worker does on its own in between. Beside the
session stands what the host shows for each byte, and what there is to know of the past of a byte.
-/

namespace LiveHighlight

/-- What can happen to a session. -/
inductive Action (E : SyntaxEngine)
  | edit (range : ByteRange) (text : String)
  | setTheme (theme : Theme)
  | setLanguage (grammar : Grammar E)
  | disable
  | enable
  | setCursors (positions : List Cursor)
  | setParseTimeout (micros : UInt64)
  | idle
  | poll
  | work (move : WorkerMove)

/-! ### What a session does -/

/-- The jobs that a worker has not finished. -/
def Worker.jobs {E : SyntaxEngine} (w : Worker E) : List (QueryJob E) :=
  w.queue ++ w.running.toList

namespace Highlighter

variable {E : SyntaxEngine}

/-- The highlighter after its worker has made a move. -/
def moveWorker (h : Highlighter E) (clock : Clock) (m : WorkerMove) : Highlighter E :=
  { h with worker := h.worker.map (·.move clock m) }

/-- The ranges of the worker's jobs and results of the present generation. -/
def outstanding (h : Highlighter E) : List ByteRange :=
  match h.worker with
  | none => []
  | some w =>
    (w.jobs.filter (·.generation == h.generation)).map (·.range) ++
      (w.results.filter (·.generation == h.generation)).map (·.range)

end Highlighter

/-- A session in the middle of an action: what it has sent by then, the answers that it has yet to
take in, and the number of results that it discards. -/
structure Stage (E : SyntaxEngine) where
  session : Session E
  sent : List Repaint := []
  answers : List (ByteRange × QueryAnswer) := []
  discarded : Nat := 0

/-- The session with the answers taken in, and all that it has sent. -/
def Stage.finish {E : SyntaxEngine} (t : Stage E) : Session E × List Repaint :=
  let done := t.session.highlighter.applyAll t.answers
  (⟨t.session.document, done.1.discard t.discarded⟩, t.sent ++ done.2)

/-- The stage of a session whose highlighter has made a query. -/
def Highlighter.Asked.stage {E : SyntaxEngine} (a : Asked E) (d : Document) : Stage E where
  session := ⟨d, a.highlighter⟩
  answers := a.answered.toList

theorem Highlighter.Asked.finish_stage {E : SyntaxEngine} (a : Asked E) (d : Document) :
    (a.stage d).finish = (⟨d, a.take.1⟩, a.take.2) := by
  obtain ⟨h, answered⟩ := a
  cases answered with
  | none => rfl
  | some answer => simp only [stage, Stage.finish, take, Option.toList_some, applyAll,
      List.nil_append, List.append_nil]; rfl

namespace Session

variable {E : SyntaxEngine}

/-- A session before its first language is set. -/
def opened (config : Config) (theme : Theme) (d : Document) : Session E := ⟨d, .create config theme⟩

/-- The session after an action, and the updates it sends. -/
def step (s : Session E) (clock : Clock) : Action E → Session E × List Repaint
  | .edit r text =>
    match s.edit clock r text with
    | .ok done => done
    | .error _ => (s, [])
  | .setTheme theme => s.highlight (·.setTheme theme)
  | .setLanguage g => s.highlight (·.setLanguage clock g)
  | .disable => s.highlight Highlighter.disable
  | .enable => s.highlight (·.enable clock)
  | .setCursors positions => s.highlight fun h _ => (h.setCursors positions, [])
  | .setParseTimeout micros => s.highlight fun h _ => (h.setParseTimeout micros, [])
  | .idle =>
    s.highlight fun h d =>
      let done := h.idle clock d
      (done.highlighter, done.updates)
  | .poll =>
    s.highlight fun h _ =>
      let polled := h.poll
      (polled.highlighter, polled.updates)
  | .work m => s.highlight fun h _ => (h.moveWorker clock m, [])

/-- The session after a run. -/
def run (s : Session E) (steps : List (Clock × Action E)) : Session E :=
  steps.foldl (fun s step => (s.step step.1 step.2).1) s

/-- The edit that an action makes. -/
def editMade (s : Session E) : Action E → Option TextEdit
  | .edit r text => (s.document.planEdit r text).toOption
  | _ => none

/-- The session in the middle of an action, when all queries have been made and no answer has been
taken in. -/
def stage (s : Session E) (clock : Clock) : Action E → Stage E
  | .edit r text =>
    match s.document.planEdit r text, s.document.replace r text with
    | .ok e, .ok d => (s.highlighter.askChanged clock e d).stage d
    | _, _ => { session := s }
  | .setTheme theme =>
    let done := s.highlighter.setTheme theme s.document
    { session := ⟨s.document, done.1⟩, sent := done.2 }
  | .setLanguage g => (s.highlighter.askLanguage clock g s.document).stage s.document
  | .disable =>
    let done := s.highlighter.disable s.document
    { session := ⟨s.document, done.1⟩, sent := done.2 }
  | .enable => (s.highlighter.askEnabled clock s.document).stage s.document
  | .setCursors positions => { session := ⟨s.document, s.highlighter.setCursors positions⟩ }
  | .setParseTimeout micros => { session := ⟨s.document, s.highlighter.setParseTimeout micros⟩ }
  | .idle => (s.highlighter.askIdle clock s.document).stage s.document
  | .poll =>
    match s.highlighter.worker with
    | some w =>
      let kept := s.highlighter.kept w.results
      { session := ⟨s.document, s.highlighter.emptied⟩
        answers := kept
        discarded := w.results.length - kept.length }
    | none => { session := s }
  | .work m => { session := ⟨s.document, s.highlighter.moveWorker clock m⟩ }

/-- An edit is made, or refused and changes nothing. -/
theorem stage_edit (s : Session E) (clock : Clock) (r : ByteRange) (text : String) :
    (∃ e d, s.document.Edits e d ∧ s.editMade (.edit r text) = some e ∧
      s.stage clock (.edit r text) = (s.highlighter.askChanged clock e d).stage d) ∨
    (s.editMade (.edit r text) = none ∧ s.stage clock (.edit r text) = { session := s }) := by
  cases hplan : s.document.planEdit r text with
  | ok e =>
    obtain ⟨e', d, hplan', hreplace⟩ := (Document.planEdit_eq_ok hplan).1.edits text
    refine .inl ⟨e, d, ⟨r, text, hplan, hreplace⟩, ?_, ?_⟩
    · rw [editMade, hplan]
      rfl
    · simp only [stage, hplan, hreplace]
  | error failure =>
    refine .inr ⟨?_, ?_⟩
    · rw [editMade, hplan]
      rfl
    · simp only [stage, hplan]

/-- Every action comes to its end by way of its stage. -/
theorem step_eq (s : Session E) (clock : Clock) (a : Action E) :
    s.step clock a = (s.stage clock a).finish := by
  cases a with
  | edit r text =>
    simp only [step, stage, Session.edit]
    cases hplan : s.document.planEdit r text with
    | ok e =>
      cases hreplace : s.document.replace r text with
      | ok d => exact ((s.highlighter.askChanged clock e d).finish_stage d).symm
      | error failure => rfl
    | error failure => rfl
  | setLanguage g =>
    exact ((s.highlighter.askLanguage clock g s.document).finish_stage s.document).symm
  | enable => exact ((s.highlighter.askEnabled clock s.document).finish_stage s.document).symm
  | idle => exact ((s.highlighter.askIdle clock s.document).finish_stage s.document).symm
  | poll =>
    simp only [step, stage, highlight]
    cases hw : s.highlighter.worker with
    | some w => rw [Highlighter.poll_eq hw]; rfl
    | none => rw [Highlighter.poll, hw]; rfl
  | setTheme theme => simp only [stage, Stage.finish, Highlighter.applyAll, List.append_nil]; rfl
  | disable => simp only [stage, Stage.finish, Highlighter.applyAll, List.append_nil]; rfl
  | setCursors positions => rfl
  | setParseTimeout micros => rfl
  | work m => rfl

/-- Whether an action parses the whole text anew. -/
def rebuilds (s : Session E) : Action E → Bool
  | .setLanguage _ => !s.highlighter.isDisabled
  | .enable => s.highlighter.isDisabled
  | _ => false

/-- The deferred range that idle work sends off although the worker still has a job or a result of
the present generation. -/
def takenEarly (s : Session E) : Action E → Option ByteRange
  | .idle =>
    let h := s.highlighter
    if h.isDisabled || h.reparsePending || h.awaitsWorker || h.outstanding.isEmpty then none
    else (h.cursors.byProximity s.document h.deferred).head?
  | _ => none

end Session

/-! ### What the host shows -/

/-- What a host shows for each byte: the capture it was told last, and the attributes, if the byte
was ever painted. -/
structure Display where
  captures : Nat → Option Capture := fun _ => none
  attributes : Nat → Option Attributes := fun _ => none

namespace Display

/-- The display moved along an edit. Inserted bytes have no capture and were never painted. -/
def follow (s : Display) (e : TextEdit) : Display :=
  ⟨e.splice none s.captures, e.splice none s.attributes⟩

/-- The display with a run painted. -/
def paint (s : Display) (run : PaintRun) : Display where
  captures i := if run.range.contains i then run.capture else s.captures i
  attributes i := if run.range.contains i then some run.attributes else s.attributes i

/-- The display with updates painted, in turn. -/
def receive (s : Display) (updates : List Repaint) : Display :=
  updates.foldl (fun s u => u.runs.foldl paint s) s

theorem receive_append (s : Display) (us vs : List Repaint) :
    s.receive (us ++ vs) = (s.receive us).receive vs := by
  simp [receive]

end Display

/-- Whether taking in an answer takes a byte off the unpainted text without covering it. -/
def Highlighter.drops {E : SyntaxEngine} (h : Highlighter E) (o : QueryAnswer) (i : Nat) : Bool :=
  h.unpainted.any (·.contains i) && !o.covered.contains i &&
    !(h.unpainted.bind (stillUnpainted o.covered)).any (·.contains i)

/-- An answer drops the unpainted bytes before its range if the range begins within the unpainted
text or where that ends. -/
theorem Highlighter.drops_iff {E : SyntaxEngine} {h : Highlighter E} {o : QueryAnswer}
    (hordered : o.covered.start ≤ o.covered.stop) {i : Nat} :
    h.drops o i = true ↔ ∃ u, h.unpainted = some u ∧ u.contains i = true ∧
      i < o.covered.start ∧ o.covered.start ≤ u.stop := by
  unfold drops
  cases h.unpainted with
  | none => simp
  | some u =>
    simp only [Option.any_some, Option.bind_some, Option.some.injEq, exists_eq_left',
      Bool.and_eq_true, Bool.not_eq_true', ← Bool.not_eq_true]
    by_cases hu : u.contains i = true
    · have hbounds := ByteRange.contains_iff.mp hu
      simp only [hu, true_and]
      unfold stillUnpainted paintable
      simp only
      split
      · simp only [Option.any_some, ByteRange.contains_iff]
        omega
      · by_cases hmeet : max u.start o.covered.start ≤ min u.stop o.covered.stop
        · rw [if_pos hmeet, if_neg (by simp)]
          simp only [Option.any_none, ByteRange.contains_iff, reduceCtorEq, not_false_eq_true,
            and_true]
          omega
        · rw [if_neg hmeet]
          split
          · simp only [Option.any_some, ByteRange.contains_iff]
            omega
          · rename_i hpast
            simp only [Option.isNone_none, and_true] at hpast
            omega
    · simp [hu]

/-- What is kept for each byte, moved along an edit if there was one. -/
def followed {α : Type} (edit : Option TextEdit) (blank : α) (f : Nat → α) : Nat → α :=
  edit.elim f fun e => e.splice blank f

/-- A host: a session, what is shown of it, and the past of its bytes. -/
structure Host (E : SyntaxEngine) where
  session : Session E
  display : Display := {}
  /-- An answer since the last parse of the whole text passed its match limit. -/
  overflowed : Bool := false
  /-- Bytes that an answer took off the unpainted text, until they are painted right. -/
  dropped : Nat → Bool := fun _ => false
  /-- Bytes of deferred ranges that were taken early, until an answer covers them. -/
  early : Nat → Bool := fun _ => false

namespace Host

variable {E : SyntaxEngine}

/-- A host that has opened a text and set no language yet. -/
def opened (config : Config) (theme : Theme) (d : Document) : Host E where
  session := .opened config theme d

/-- Whether a byte shows the attributes of its capture in the theme. -/
def painted (s : Session E) (display : Display) (i : Nat) : Bool :=
  display.attributes i ==
    some (s.highlighter.theme.attributesFor (Spans.captureAt s.highlighter.spans i))

/-- The host when an answer has been taken in. -/
def take (w : Host E) (r : ByteRange) (o : QueryAnswer) : Host E :=
  let done := w.session.highlighter.apply r o
  { session := ⟨w.session.document, done.1⟩
    display := w.display.receive done.2
    overflowed := w.overflowed || o.exceeded
    dropped := fun i => w.dropped i || w.session.highlighter.drops o i
    early := fun i => w.early i && !o.covered.contains i }

/-- The host when answers have been taken in, one after the other. -/
def takeAll (w : Host E) : List (ByteRange × QueryAnswer) → Host E
  | [] => w
  | answer :: rest => takeAll (w.take answer.1 answer.2) rest

/-- The host in the middle of an action. -/
def stage (w : Host E) (clock : Clock) (a : Action E) : Host E :=
  let edit := w.session.editMade a
  let t := w.session.stage clock a
  { session := t.session
    display := (edit.elim w.display w.display.follow).receive t.sent
    overflowed := !w.session.rebuilds a && w.overflowed
    dropped := followed edit false w.dropped
    early := fun i =>
      followed edit false w.early i || (w.session.takenEarly a).any (·.contains i) }

/-- The host with some results counted as discarded, and without the bytes among the dropped ones
that are painted right. -/
def settle (w : Host E) (discarded : Nat) : Host E :=
  { w with
    session := ⟨w.session.document, w.session.highlighter.discard discarded⟩
    dropped := fun i => w.dropped i && !painted w.session w.display i }

/-- The host after an action. -/
def step (w : Host E) (clock : Clock) (a : Action E) : Host E :=
  let done := w.session.step clock a
  let edit := w.session.editMade a
  let display := (edit.elim w.display w.display.follow).receive done.2
  let taken := (w.stage clock a).takeAll (w.session.stage clock a).answers
  { session := done.1
    display
    overflowed := taken.overflowed
    dropped := fun i => taken.dropped i && !painted done.1 display i
    early := taken.early }

theorem takeAll_session (w : Host E) (answers : List (ByteRange × QueryAnswer)) :
    (w.takeAll answers).session =
        ⟨w.session.document, (w.session.highlighter.applyAll answers).1⟩ ∧
      (w.takeAll answers).display =
        w.display.receive (w.session.highlighter.applyAll answers).2 := by
  induction answers generalizing w with
  | nil => exact ⟨rfl, rfl⟩
  | cons answer rest ih =>
    obtain ⟨hsession, hdisplay⟩ := ih (w.take answer.1 answer.2)
    refine ⟨hsession, hdisplay.trans ?_⟩
    rw [take, ← Display.receive_append]
    rfl

/-- Every action comes to its end by way of its stage. -/
theorem step_eq (w : Host E) (clock : Clock) (a : Action E) :
    w.step clock a =
      ((w.stage clock a).takeAll (w.session.stage clock a).answers).settle
        (w.session.stage clock a).discarded := by
  obtain ⟨hsession, hdisplay⟩ :=
    (w.stage clock a).takeAll_session (w.session.stage clock a).answers
  rw [step, Session.step_eq]
  simp only [Stage.finish, settle, hsession, hdisplay, Display.receive_append]
  rfl

theorem step_document (w : Host E) (clock : Clock) (a : Action E) :
    (w.step clock a).session.document = (w.session.stage clock a).session.document := by
  rw [step, Session.step_eq]
  rfl

/-- What holds in the middle of an action, with answers to be taken in, and is kept as they are
taken in and the action ends, holds after it. -/
theorem step_induction {motive : List (ByteRange × QueryAnswer) → Host E → Prop} {w : Host E}
    {clock : Clock} {a : Action E}
    (hstage : motive (w.session.stage clock a).answers (w.stage clock a))
    (htake : ∀ w r o rest, motive ((r, o) :: rest) w → motive rest (w.take r o))
    (hsettle : ∀ w n, motive [] w → motive [] (w.settle n)) : motive [] (w.step clock a) := by
  have htakeAll : ∀ answers w, motive answers w → motive [] (w.takeAll answers) := by
    intro answers
    induction answers with
    | nil => exact fun w h => h
    | cons answer rest ih => exact fun w h => ih _ (htake w answer.1 answer.2 rest h)
  rw [step_eq]
  exact hsettle _ _ (htakeAll _ _ hstage)

/-- The host after a run. -/
def run (w : Host E) (steps : List (Clock × Action E)) : Host E :=
  steps.foldl (fun w step => w.step step.1 step.2) w

/-- All texts of a run fit a machine word. -/
def Fits (w : Host E) : List (Clock × Action E) → Prop
  | [] => w.session.document.length < wordSize
  | (clock, a) :: steps => w.session.document.length < wordSize ∧ (w.step clock a).Fits steps

theorem Fits.head {w : Host E} {steps : List (Clock × Action E)} (h : w.Fits steps) :
    w.session.document.length < wordSize := by
  cases steps with
  | nil => exact h
  | cons step steps => exact h.1

theorem Fits.last {w : Host E} {steps : List (Clock × Action E)} (h : w.Fits steps) :
    (w.run steps).session.document.length < wordSize := by
  induction steps generalizing w with
  | nil => exact h
  | cons step steps ih => exact ih h.2

/-- What holds at the beginning of a run and is kept by every action holds at its end. -/
theorem run_induction {motive : Host E → Prop} {w : Host E} {steps : List (Clock × Action E)}
    (hfits : w.Fits steps) (hstart : motive w)
    (hstep : ∀ w clock a, w.session.document.length < wordSize →
      (w.step clock a).session.document.length < wordSize → motive w →
      motive (w.step clock a)) : motive (w.run steps) := by
  induction steps generalizing w with
  | nil => exact hstart
  | cons step steps ih => exact ih hfits.2 (hstep w step.1 step.2 hfits.1 hfits.2.head hstart)

end Host

end LiveHighlight
