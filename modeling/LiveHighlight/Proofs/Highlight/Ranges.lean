import LiveHighlight.Proofs.Highlight.Bearing
import LiveHighlight.Proofs.Highlight.Silence

/-! No query is ever refused. Every range that waits, is deferred or is sent to the worker can be
queried in its text, whatever edits it has lived through; so each query is answered or under way,
and each answer is laid over a range of the text that holds all its spans. -/

namespace LiveHighlight

variable {E : SyntaxEngine}

/-! ### What is queried -/

namespace Highlighter

variable {h h' b : Highlighter E} {d d' : Document}

/-- The highlighter with another record of what was queried last. -/
def recalling (h : Highlighter E) (last : Option ByteRange) : Highlighter E :=
  { h with lastRehighlight := last }

/-- A range that the text takes is being dealt with: answered, or sent to the worker and waited
for. -/
inductive Heeded (h : Highlighter E) (d : Document) (answers : List (ByteRange × QueryAnswer))
    (r : ByteRange) : Prop
  | answered (o : QueryAnswer) (hanswers : answers = [(r, o)])
  | sent (j : QueryJob E) (hstate : h.state = .pending r) (hlast : h.queued.getLast? = some j)
      (hrange : j.range = r) (htext : j.text = d) (hgeneration : j.generation = h.generation)

/-- The middle of an action that began with a highlighter `b` and may have made a query: a range
that is remembered is one that the text takes and is dealt with, and every new job can be answered.
-/
structure Minded (b : Highlighter E) (t : Stage E) : Prop where
  heeded : ∀ r, t.session.highlighter.lastRehighlight = some r →
    t.session.document.Takes r ∧ t.session.highlighter.Heeded t.session.document t.answers r
  jobs : ∀ j ∈ t.session.highlighter.jobs, j ∈ b.jobs ∨ j.text.Takes j.range

theorem minded_unasked {t : Stage E} (hlast : t.session.highlighter.lastRehighlight = none)
    (hjobs : ∀ j ∈ t.session.highlighter.jobs, j ∈ b.jobs) : Minded b t where
  heeded r hr := by cases hlast.symm.trans hr
  jobs j hj := .inl (hjobs j hj)

theorem minded_of_worker {t : Stage E} (hlast : t.session.highlighter.lastRehighlight = none)
    (hworker : t.session.highlighter.worker = b.worker) : Minded b t := by
  refine minded_unasked hlast fun j hj => ?_
  rw [jobs, ← hworker]
  exact hj

/-- A query of a range that the text takes is not refused. -/
theorem minded_ask (htracks : h.parser.Tracks d) (hup : h.parser.UpToDate)
    (hworker : h.worker = b.worker) {r : ByteRange} (hr : d.Takes r) (clock : Clock) :
    Minded b ((h.ask clock r d).stage d) := by
  have hasked := h.asked htracks hup clock r
  generalize h.ask clock r d = a at hasked ⊢
  cases hasked with
  | @sent w g hw hparsed =>
    refine ⟨fun q hq => ?_, fun j hj => ?_⟩
    · cases hq
      refine ⟨hr, .sent ⟨h.generation, ⟨E.parse g.language d.chars, g.query⟩, d, r,
        h.parser.limits⟩ rfl ?_ rfl rfl rfl⟩
      show (w.queue ++ [_]).getLast? = _
      exact List.getLast?_concat
    · rcases Worker.mem_jobs.mp hj with hj | hj
      · rcases List.mem_append.mp hj with hj | hj
        · left
          rw [jobs, ← hworker, hw]
          exact Worker.mem_jobs.mpr (.inl hj)
        · right
          rw [List.mem_singleton.mp hj]
          exact hr
      · left
        rw [jobs, ← hworker, hw]
        exact Worker.mem_jobs.mpr (.inr hj)
  | @answered answer _ hnone stats hcurrent =>
    refine ⟨fun q hq => ?_, fun j hj => .inl ?_⟩
    · cases hq
      exact ⟨hr, .answered answer rfl⟩
    · rw [jobs, ← hworker]
      exact hj
  | refused hrefused => exact (hrefused hr).elim

theorem minded_rebuild (hcompiled : ∀ g, h.parser.grammar = some g → g.Compiled)
    (hworker : h.worker = b.worker) (hlast : h.lastRehighlight = none) (clock : Clock)
    (d : Document) : Minded b ((h.rebuild clock d).stage d) := by
  have htracks : h.parser.invalidate.Tracks d := .of_blank hcompiled rfl rfl
  have hreparsed := htracks.reparsed clock
  unfold rebuild
  simp only [startOver]
  generalize h.parser.invalidate.reparse clock d = result at hreparsed ⊢
  obtain ⟨p, parsed⟩ := result
  cases parsed with
  | ok ranges =>
    exact minded_ask (h := { h.startOver d with parser := p }) (hreparsed.tracks htracks)
      hreparsed.upToDate hworker (takes_wholeText d) clock
  | error failure => exact minded_of_worker hlast hworker

theorem minded_askChanged (hE : E.OrdersDifferences) (hin : h.InStep d)
    (hedits : ∀ r ∈ h.parser.pendingEdits, r.start ≤ r.stop) (hlast : h.lastRehighlight = none)
    {e : TextEdit} (he : e.start.offset ≤ e.newEnd.offset) (clock : Clock) :
    Minded h ((h.askChanged clock e d').stage d') := by
  unfold askChanged
  split
  · exact minded_of_worker hlast rfl
  · have htracks : (h.moveAlong e).parser.Tracks d' := hin.tracks.applyEdit e
    have hreparsed := htracks.reparsed clock
    have hedits := DocumentParser.ordered_applyEdit he hedits
    simp only
    generalize (h.moveAlong e).parser.reparse clock d' = result at hreparsed ⊢
    obtain ⟨p, parsed⟩ := result
    cases parsed with
    | ok ranges =>
      -- The rows around any ranges can be queried, so nothing but their order has to be known.
      have hordered := (hreparsed.ordered hE hedits).2
      refine minded_ask (h := { h.moveAlong e with parser := p }) (b := h)
        (hreparsed.tracks htracks) hreparsed.upToDate rfl (takes_affectedRows ?_ d') clock
      intro r hr
      simp only [List.mem_append, Option.mem_toList, List.mem_singleton] at hr
      rcases hr with (hr | hr) | rfl
      · exact hordered r hr
      · obtain ⟨q, -, rfl⟩ := Option.map_eq_some_iff.mp hr
        exact TextEdit.start_le_stop_carryRange q
      · exact he
    | error failure => exact minded_of_worker hlast rfl

theorem minded_askIdle (hE : E.OrdersDifferences) (hin : h.InStep d)
    (hedits : ∀ r ∈ h.parser.pendingEdits, r.start ≤ r.stop)
    (hwaiting : ∀ r, h.state.waiting = some r → r.start ≤ r.stop)
    (hdeferred : ∀ r ∈ h.deferred, d.Takes r) (hlast : h.lastRehighlight = none) (clock : Clock) :
    Minded h ((h.askIdle clock d).stage d) := by
  unfold askIdle
  split
  · exact minded_of_worker hlast rfl
  · rename_i hon
    split
    · have hreparsed := hin.tracks.reparsed clock
      simp only
      generalize h.parser.reparse clock d = result at hreparsed ⊢
      obtain ⟨p, parsed⟩ := result
      cases parsed with
      | ok ranges =>
        have hordered := (hreparsed.ordered hE hedits).2
        refine minded_ask (h := { h with parser := p, reparsePending := false }) (b := h)
          (hreparsed.tracks hin.tracks) hreparsed.upToDate rfl (takes_affectedRows ?_ d) clock
        intro r hr
        simp only [List.mem_append, Option.mem_toList] at hr
        exact hr.elim (hordered r) (hwaiting r)
      | error failure => exact minded_of_worker hlast rfl
    · rename_i hpending
      have hup := hin.caughtUp (isDisabled_of_not hon) (by simpa using hpending)
      split
      · exact minded_of_worker hlast rfl
      · split
        · exact minded_of_worker hlast rfl
        · rename_i next others horder
          exact minded_ask (h := { h with deferred := others }) (b := h) hin.tracks hup rfl
            (hdeferred next ((mem_deferred horder).mpr (.inl rfl))) clock

/-! ### What is remembered of a query -/

section

variable (h) (last : Option ByteRange)

@[simp] theorem isDisabled_recalling : (h.recalling last).isDisabled = h.isDisabled := rfl

@[simp] theorem parser_recalling : (h.recalling last).parser = h.parser := rfl

@[simp] theorem worker_recalling : (h.recalling last).worker = h.worker := rfl

@[simp] theorem cursors_recalling : (h.recalling last).cursors = h.cursors := rfl

@[simp] theorem deferred_recalling : (h.recalling last).deferred = h.deferred := rfl

@[simp] theorem awaitsWorker_recalling : (h.recalling last).awaitsWorker = h.awaitsWorker := rfl

@[simp] theorem reparsePending_recalling :
    (h.recalling last).reparsePending = h.reparsePending := rfl

end

theorem heeded_recalling {answers : List (ByteRange × QueryAnswer)} {r : ByteRange}
    {last : Option ByteRange} :
    (h.recalling last).Heeded d answers r ↔ h.Heeded d answers r := by
  constructor <;> intro hh <;> cases hh with
  | answered o hanswers => exact .answered o hanswers
  | sent j hstate hlast hrange htext hgeneration =>
    exact .sent j hstate hlast hrange htext hgeneration

/-- The highlighter with what was queried before, if nothing has been queried since. -/
def after (h : Highlighter E) (last : Option ByteRange) : Highlighter E :=
  h.recalling (h.lastRehighlight.or last)

def Asked.after (a : Asked E) (last : Option ByteRange) : Asked E :=
  { a with highlighter := a.highlighter.after last }

theorem ask_after (h : Highlighter E) (last : Option ByteRange) (clock : Clock) (r : ByteRange)
    (d : Document) : (h.ask clock r d).after last = h.ask clock r d := by
  unfold ask
  simp only
  split
  · rfl
  · split <;> rfl

theorem rebuild_after (h : Highlighter E) (last : Option ByteRange) (clock : Clock) (d : Document) :
    (h.recalling last).rebuild clock d = ((h.recalling none).rebuild clock d).after last := by
  unfold rebuild
  simp only
  rw [show ((h.recalling last).startOver d).parser = (h.startOver d).parser from rfl,
    show ((h.recalling none).startOver d).parser = (h.startOver d).parser from rfl]
  generalize (h.startOver d).parser.reparse clock d = result
  obtain ⟨p, parsed⟩ := result
  cases parsed with
  | ok ranges => exact (ask_after _ last clock _ d).symm
  | error failure => rfl

theorem askChanged_after (h : Highlighter E) (last : Option ByteRange) (clock : Clock)
    (e : TextEdit) (d : Document) :
    (h.recalling last).askChanged clock e d =
      ((h.recalling none).askChanged clock e d).after last := by
  unfold askChanged
  rw [isDisabled_recalling, isDisabled_recalling]
  split
  · rfl
  · simp only
    rw [show ((h.recalling last).moveAlong e).parser = (h.moveAlong e).parser from rfl,
      show ((h.recalling none).moveAlong e).parser = (h.moveAlong e).parser from rfl]
    generalize (h.moveAlong e).parser.reparse clock d = result
    obtain ⟨p, parsed⟩ := result
    cases parsed with
    | ok ranges => exact (ask_after _ last clock _ d).symm
    | error failure => rfl

theorem askIdle_after (h : Highlighter E) (last : Option ByteRange) (clock : Clock) (d : Document) :
    (h.recalling last).askIdle clock d = ((h.recalling none).askIdle clock d).after last := by
  unfold askIdle
  rw [isDisabled_recalling, isDisabled_recalling]
  split
  · rfl
  · rw [reparsePending_recalling, reparsePending_recalling]
    split
    · simp only [parser_recalling]
      generalize h.parser.reparse clock d = result
      obtain ⟨p, parsed⟩ := result
      cases parsed with
      | ok ranges => exact (ask_after _ last clock _ d).symm
      | error failure => rfl
    · rw [awaitsWorker_recalling, awaitsWorker_recalling]
      split
      · rfl
      · simp only [cursors_recalling, deferred_recalling]
        cases h.cursors.byProximity d h.deferred with
        | nil => rfl
        | cons next others => exact (ask_after _ last clock _ d).symm

theorem askLanguage_after (h : Highlighter E) (last : Option ByteRange) (clock : Clock)
    (g : Grammar E) (d : Document) :
    (h.recalling last).askLanguage clock g d =
      ((h.recalling none).askLanguage clock g d).after last := by
  unfold askLanguage
  rw [isDisabled_recalling, isDisabled_recalling]
  split
  · rfl
  · exact (h.load g).rebuild_after last clock d

theorem askEnabled_after (h : Highlighter E) (last : Option ByteRange) (clock : Clock)
    (d : Document) :
    (h.recalling last).askEnabled clock d =
      ((h.recalling none).askEnabled clock d).after last := by
  unfold askEnabled
  rw [isDisabled_recalling, isDisabled_recalling]
  split
  · exact rebuild_after { h with state := .idle } last clock d
  · rfl

theorem setTheme_after (h : Highlighter E) (last : Option ByteRange) (theme : Theme)
    (d : Document) : (h.recalling last).setTheme theme d =
      (((h.recalling none).setTheme theme d).1.after last,
        ((h.recalling none).setTheme theme d).2) := by
  show ite (h.isDisabled = true) _ _ =
    ((ite (h.isDisabled = true) _ _ : Highlighter E × List Repaint).1.after last,
      (ite (h.isDisabled = true) _ _ : Highlighter E × List Repaint).2)
  split <;> rfl

theorem disable_after (h : Highlighter E) (last : Option ByteRange) (d : Document) :
    (h.recalling last).disable d =
      (((h.recalling none).disable d).1.after last, ((h.recalling none).disable d).2) := by
  unfold disable
  rw [isDisabled_recalling, isDisabled_recalling]
  split <;> rfl

end Highlighter

/-! ### Actions -/

/-- The middle of an action, with what was queried before the action. -/
def Stage.after (t : Stage E) (last : Option ByteRange) : Stage E :=
  { t with session := ⟨t.session.document, t.session.highlighter.after last⟩ }

namespace Session

variable {s : Session E} {clock : Clock} {a : Action E}

def recalling (s : Session E) (last : Option ByteRange) : Session E :=
  ⟨s.document, s.highlighter.recalling last⟩

@[simp] theorem document_recalling (last : Option ByteRange) :
    (s.recalling last).document = s.document := rfl

@[simp] theorem highlighter_recalling (last : Option ByteRange) :
    (s.recalling last).highlighter = s.highlighter.recalling last := rfl

/-- The range that an action queries, if it queries one: what it leaves on a blank record. -/
def queried (s : Session E) (clock : Clock) (a : Action E) : Option ByteRange :=
  ((s.recalling none).stage clock a).session.highlighter.lastRehighlight

/-- What was queried before an action makes no difference to it. -/
theorem stage_after (s : Session E) (last : Option ByteRange) (clock : Clock) (a : Action E) :
    (s.recalling last).stage clock a = ((s.recalling none).stage clock a).after last := by
  cases a with
  | edit r text =>
    simp only [stage, document_recalling]
    cases s.document.planEdit r text with
    | error failure => rfl
    | ok e =>
      cases s.document.replace r text with
      | error failure => rfl
      | ok d =>
        exact congrArg (·.stage d) (s.highlighter.askChanged_after last clock e d)
  | setLanguage g =>
    exact congrArg (·.stage s.document) (s.highlighter.askLanguage_after last clock g _)
  | enable => exact congrArg (·.stage s.document) (s.highlighter.askEnabled_after last clock _)
  | idle => exact congrArg (·.stage s.document) (s.highlighter.askIdle_after last clock _)
  | setTheme theme =>
    simp only [stage, highlighter_recalling, document_recalling]
    rw [Highlighter.setTheme_after]
    rfl
  | disable =>
    simp only [stage, highlighter_recalling, document_recalling]
    rw [Highlighter.disable_after]
    rfl
  | poll =>
    simp only [stage, highlighter_recalling, Highlighter.worker_recalling]
    cases s.highlighter.worker <;> rfl
  | setCursors positions => rfl
  | setParseTimeout micros => rfl
  | work m => rfl

/-- On a blank record no action has a query refused. -/
theorem minded_stage (hE : E.OrdersDifferences) (hin : s.InStep) {owed : Nat → Prop}
    (ho : s.highlighter.Owes Document.Takes owed s.document [])
    (hlast : s.highlighter.lastRehighlight = none) (clock : Clock) (a : Action E) :
    s.highlighter.Minded (s.stage clock a) := by
  cases a with
  | edit r text =>
    rcases s.stage_edit clock r text with ⟨e, d, hedit, -, hstage⟩ | ⟨-, hstage⟩
    · rw [hstage]
      exact Highlighter.minded_askChanged hE hin ho.edits hlast hedit.length.2.1 clock
    · rw [hstage]
      exact Highlighter.minded_of_worker hlast rfl
  | setLanguage g =>
    obtain ⟨grammar, hparser, hcompiled⟩ := s.highlighter.parser.setLanguage_cases g
    simp only [stage, Highlighter.askLanguage]
    split
    · exact Highlighter.minded_of_worker hlast rfl
    · refine Highlighter.minded_rebuild (h := s.highlighter.load g) (b := s.highlighter)
        (fun loaded hloaded => ?_) rfl hlast clock s.document
      refine hcompiled loaded ?_
      simpa only [Highlighter.load, hparser] using hloaded
  | enable =>
    simp only [stage, Highlighter.askEnabled]
    split
    · exact Highlighter.minded_rebuild (h := { s.highlighter with state := .idle })
        (b := s.highlighter) hin.tracks.compiled rfl hlast clock s.document
    · exact Highlighter.minded_of_worker hlast rfl
  | idle =>
    exact Highlighter.minded_askIdle hE hin ho.edits
      (fun r hr => (ho.waiting rfl r hr).ordered) ho.deferred hlast clock
  | setTheme theme =>
    simp only [stage, Highlighter.setTheme]
    split <;> exact Highlighter.minded_of_worker hlast rfl
  | disable =>
    simp only [stage, Highlighter.disable]
    split <;> exact Highlighter.minded_of_worker hlast rfl
  | poll =>
    simp only [stage]
    cases hw : s.highlighter.worker with
    | none => exact Highlighter.minded_of_worker hlast rfl
    | some w =>
      refine Highlighter.minded_unasked hlast fun j hj => ?_
      rw [← s.highlighter.jobs_emptied]
      exact hj
  | work m => exact Highlighter.minded_unasked hlast fun j hj => Highlighter.mem_jobs_moveWorker hj
  | setCursors positions => exact Highlighter.minded_of_worker hlast rfl
  | setParseTimeout micros => exact Highlighter.minded_of_worker hlast rfl

/-- No action has a query refused. -/
theorem queried_heeded (hE : E.OrdersDifferences) (hin : s.InStep) {owed : Nat → Prop}
    (ho : s.highlighter.Owes Document.Takes owed s.document []) (clock : Clock) (a : Action E) :
    let t := s.stage clock a
    t.session.highlighter.lastRehighlight =
        (s.queried clock a).or s.highlighter.lastRehighlight ∧
      (∀ r, s.queried clock a = some r → t.session.document.Takes r ∧
        t.session.highlighter.Heeded t.session.document t.answers r) ∧
      ∀ j ∈ t.session.highlighter.jobs, j ∈ s.highlighter.jobs ∨ j.text.Takes j.range := by
  intro t
  have hminded := minded_stage (s := s.recalling none) hE
    (hin.congr ⟨rfl, rfl, rfl, rfl, rfl, rfl, rfl, rfl⟩ hin.worker)
    (ho.congr rfl rfl rfl id ho.edits (fun _ hr => hr) fun _ hi => hi) rfl clock a
  -- A range that was remembered from before is not told from one queried again, so the record of
  -- the action is that of the session with nothing remembered.
  have hafter : t = ((s.recalling none).stage clock a).after s.highlighter.lastRehighlight :=
    s.stage_after s.highlighter.lastRehighlight clock a
  unfold queried
  generalize (s.recalling none).stage clock a = u at hminded hafter ⊢
  rw [hafter]
  refine ⟨rfl, fun r hr => ?_, hminded.jobs⟩
  obtain ⟨htakes, hheeded⟩ := hminded.heeded r hr
  exact ⟨htakes, Highlighter.heeded_recalling.mpr hheeded⟩

end Session

/-! ### Runs -/

namespace Host

variable {w : Host E}

/-- A host all of whose ranges can be queried: those that wait or are deferred in the text that
there is, and those of the worker's jobs, however old, in the texts that were sent along. -/
structure Queryable (w : Host E) : Prop where
  working : w.Working Document.Takes (fun _ => False) []
  jobs : ∀ j ∈ w.session.highlighter.jobs, j.text.Takes j.range

theorem Queryable.step (hE : E.OrdersDifferences) (hA : E.AlignsCaptures) (hw : w.Queryable)
    (clock : Clock) (a : Action E) (hfits : (w.step clock a).session.document.length < wordSize) :
    (w.step clock a).Queryable where
  working := hw.working.step (placement_takes hA) hE (fun _ => id) clock a hfits
  jobs j hj := by
    have hworker : (w.step clock a).session.highlighter.worker =
        (w.session.stage clock a).session.highlighter.worker := by
      rw [Host.step, Session.step_eq]
      exact Highlighter.applyAll_worker _ _
    rw [Highlighter.jobs, hworker] at hj
    rcases (Session.queried_heeded hE hw.working.inStep hw.working.owes clock a).2.2 j hj with
      hold | hnew
    · exact hw.jobs j hold
    · exact hnew

theorem queryable_run (hE : E.OrdersDifferences) (hA : E.AlignsCaptures) (config : Config)
    (theme : Theme) (d : Document) {steps : List (Clock × Action E)}
    (hfits : (opened config theme d).Fits steps) :
    ((opened config theme d).run steps).Queryable := by
  refine run_induction hfits ⟨?_, fun j hj => ?_⟩
    fun _ clock a _ hfits hw => hw.step hE hA clock a hfits
  · exact working_opened config theme d fun _ => id
  · simp only [opened, Session.opened, Highlighter.create, Highlighter.jobs] at hj
    split at hj <;> exact (List.not_mem_nil hj).elim

/-- In the middle of an action, each answer about to be taken in lies in its range of the text. -/
theorem Queryable.answers (hE : E.OrdersDifferences) (hA : E.AlignsCaptures) (hw : w.Queryable)
    (clock : Clock) (a : Action E)
    (hfits : (w.session.stage clock a).session.document.length < wordSize) :
    ∀ answer ∈ (w.session.stage clock a).answers,
      answer.2.Sound (w.session.stage clock a).session.document answer.1 := by
  intro answer hanswer
  have hP := placement_takes hA
  have hstage : (w.stage clock a).Working Document.Takes (fun _ => False)
      (w.session.stage clock a).answers :=
    hw.working.stage hP hE clock a hfits (fun i hi => hi.elim) fun _ _ i hi => hi
  have hone : (w.session.stage clock a).session.highlighter.Answered
      (w.session.stage clock a).session.document [(answer.1, answer.2)] := by
    intro o ho
    rw [List.mem_singleton.mp ho]
    exact hstage.answered answer hanswer
  refine hone.sound (hP.holds (hstage.owes.placed answer.1 ?_))
  exact List.mem_append_left _ (List.mem_map_of_mem hanswer)

/-- No query is ever handed a range that the text does not take. In every state that a run reaches,
each deferred range has some text, and each deferred range and the one that waits can be queried in
the text that there is; so can the range of each job of the worker in the text of that job. Whatever
is done next, a query that it makes is of a range that the text takes, and is answered or sent to
the worker, so it is never dropped; and the spans of each answer taken in lie in what the answer
covers, a range of the text that is not reversed. It is assumed that captures lie between characters
and that ranges in which trees differ are not reversed. -/
theorem queries_in_bounds (hE : E.OrdersDifferences) (hA : E.AlignsCaptures) (config : Config)
    (theme : Theme) (d : Document) {steps : List (Clock × Action E)}
    (hfits : (opened config theme d).Fits steps) :
    let s := ((opened config theme d).run steps).session
    let h := s.highlighter
    (∀ r ∈ h.deferred, r.start < r.stop ∧ s.document.requireRange r = .ok ()) ∧
      (∀ r, h.state = .pending r → s.document.requireRange r = .ok ()) ∧
      (∀ j ∈ h.jobs, j.text.requireRange j.range = .ok ()) ∧
      ∀ clock a, (s.step clock a).1.document.length < wordSize →
        let t := s.stage clock a
        t.session.highlighter.lastRehighlight = (s.queried clock a).or h.lastRehighlight ∧
        (∀ r, s.queried clock a = some r → t.session.document.requireRange r = .ok () ∧
          t.session.highlighter.Heeded t.session.document t.answers r) ∧
        ∀ answer ∈ t.answers, answer.2.covered.start ≤ answer.2.covered.stop ∧
          answer.2.covered.stop ≤ t.session.document.length ∧
          Spans.Within answer.2.covered answer.2.spans := by
  intro s h
  have hqueryable : ((opened config theme d).run steps).Queryable :=
    queryable_run hE hA config theme d hfits
  have hordered : h.Orderly := by
    have hreached := (Session.attended_reached hE config theme d steps).1
    rw [show h = ((Session.opened config theme d).run steps).highlighter from
      congrArg Session.highlighter (run_session _ _)]
    exact hreached
  have hworking := hqueryable.working
  simp only [Document.requireRange_eq_ok]
  refine ⟨fun r hr => ⟨hordered.deferred r hr, hworking.owes.deferred r hr⟩,
    fun r hr => hworking.owes.waiting rfl r (Highlighter.waiting_eq_some.mpr hr),
    hqueryable.jobs,
    fun clock a hfits => ?_⟩
  rw [Session.step_eq] at hfits
  obtain ⟨hlast, hheeded, -⟩ :=
    Session.queried_heeded hE hworking.inStep hworking.owes clock a
  refine ⟨hlast, hheeded, fun answer hanswer => ?_⟩
  have hsound := hqueryable.answers hE hA clock a hfits answer hanswer
  exact ⟨hsound.ordered, hsound.stop, hsound.within⟩

/-- While the worker is at its first job for a text and has the second one to come, the end of the
text is deferred; all three ranges can be queried, the deferred one by idle work. -/
theorem queries_in_bounds_rows :
    let s := ((opened { queryBudgetMicros := 0, backgroundQueries := true } (.plain "plain")
      Commas.rows).run Commas.wideSteps).session
    s.highlighter.deferred = [⟨131, 134⟩] ∧ s.highlighter.state = .pending ⟨0, 134⟩ ∧
      s.highlighter.jobs.map (·.range) = [⟨0, 134⟩, ⟨0, 131⟩] ∧
      s.document.requireRange ⟨131, 134⟩ = .ok () ∧ s.document.requireRange ⟨0, 134⟩ = .ok () ∧
      ∀ j ∈ s.highlighter.jobs, j.text.requireRange j.range = .ok () := by
  obtain ⟨hdeferred, hwaiting, hjobs, -⟩ := queries_in_bounds Commas.ordersDifferences
    Commas.alignsCaptures { queryBudgetMicros := 0, backgroundQueries := true } (.plain "plain")
    Commas.rows Commas.wide_fits
  have hreached : ((opened { queryBudgetMicros := 0, backgroundQueries := true } (.plain "plain")
      Commas.rows).run Commas.wideSteps).session.highlighter.deferred = [⟨131, 134⟩] ∧
      ((opened { queryBudgetMicros := 0, backgroundQueries := true } (.plain "plain")
        Commas.rows).run Commas.wideSteps).session.highlighter.state = .pending ⟨0, 134⟩ ∧
      ((opened { queryBudgetMicros := 0, backgroundQueries := true } (.plain "plain")
        Commas.rows).run Commas.wideSteps).session.highlighter.jobs.map (·.range) =
          [⟨0, 134⟩, ⟨0, 131⟩] := by
    decide +kernel
  obtain ⟨hcut, hstate, hranges⟩ := hreached
  refine ⟨hcut, hstate, hranges, (hdeferred ⟨131, 134⟩ ?_).2, hwaiting _ hstate, hjobs⟩
  rw [hcut]
  exact List.mem_singleton_self _

end Host

end LiveHighlight
