import LiveHighlight.Proofs.Highlight.Attendance
import LiveHighlight.Proofs.Highlight.Updates

/-! A session that is off is silent. Whatever the host does short of turning highlighting on again,
nothing is parsed, queried, handed to the worker or sent, and what the worker still delivers is only
counted. -/

namespace LiveHighlight

variable {E : SyntaxEngine}

/-- What of a highlighter stays as it is while highlighting is off. -/
structure Standstill where
  state : HighlightPhase
  spans : List Span
  unpainted : Option ByteRange
  deferred : List ByteRange
  reparsePending : Bool
  generation : Nat
  lastRehighlight : Option ByteRange
  stats : WorkStats

namespace Highlighter

variable {h : Highlighter E}

/-- Discarded results are left out of account, as they keep arriving. -/
def standstill (h : Highlighter E) : Standstill where
  state := h.state
  spans := h.spans
  unpainted := h.unpainted
  deferred := h.deferred
  reparsePending := h.reparsePending
  generation := h.generation
  lastRehighlight := h.lastRehighlight
  stats := { h.stats with discardedResults := 0 }

/-- The jobs that the worker has not finished. -/
def jobs (h : Highlighter E) : List (QueryJob E) := h.worker.elim [] (·.jobs)

theorem jobs_emptied (h : Highlighter E) : h.emptied.jobs = h.jobs := by
  rw [jobs, jobs, emptied]
  cases h.worker <;> rfl

/-- No move of a worker brings a new job. -/
theorem mem_jobs_moveWorker {clock : Clock} {m : WorkerMove} {j : QueryJob E}
    (hj : j ∈ (h.moveWorker clock m).jobs) : j ∈ h.jobs := by
  unfold jobs moveWorker at *
  cases hw : h.worker with
  | none => simp [hw] at hj
  | some w =>
    simp only [hw, Option.map_some, Option.elim_some] at hj ⊢
    exact (w.mem_move clock m).1 j hj

/-- Nothing is shown or outstanding. -/
structure Cleared (h : Highlighter E) : Prop where
  spans : h.spans = []
  deferred : h.deferred = []
  reparsePending : h.reparsePending = false

theorem Cleared.of_standstill {h' : Highlighter E} (hc : h.Cleared)
    (hstill : h'.standstill = h.standstill) : h'.Cleared where
  spans := (congrArg Standstill.spans hstill).trans hc.spans
  deferred := (congrArg Standstill.deferred hstill).trans hc.deferred
  reparsePending := (congrArg Standstill.reparsePending hstill).trans hc.reparsePending

theorem state_of_isDisabled (hoff : h.isDisabled = true) : h.state = .disabled := by
  simpa [isDisabled] using hoff

theorem Cleared.hasPendingWork (hc : h.Cleared) (hoff : h.isDisabled = true) :
    h.hasPendingWork = false := by
  simp [Highlighter.hasPendingWork, hc.reparsePending, hc.deferred, state_of_isDisabled hoff,
    HighlightPhase.waiting]

/-- No result is accepted while highlighting is off. -/
theorem kept_of_isDisabled (hoff : h.isDisabled = true) (results : List JobResult) :
    h.kept results = [] := by
  have hnone : ∀ r ∈ results, ¬ h.accepts r = true := by
    intro r _ haccepts
    rw [accepts, Bool.and_eq_true, Bool.not_eq_true'] at haccepts
    cases hoff.symm.trans haccepts.2
  rw [kept, List.filter_eq_nil_iff.mpr hnone, List.map_nil]

theorem applied_poll_of_isDisabled (hoff : h.isDisabled = true) : h.poll.applied = 0 := by
  cases hw : h.worker with
  | none =>
    rw [poll, hw]
  | some w =>
    rw [poll_eq hw]
    show (h.kept w.results).length = 0
    rw [kept_of_isDisabled hoff, List.length_nil]

end Highlighter

namespace Session

variable {s : Session E} {a : Action E}

/-- The answers that a run takes in, be they of its own queries or of the worker's. -/
def answered (s : Session E) : List (Clock × Action E) → List (ByteRange × QueryAnswer)
  | [] => []
  | (clock, a) :: steps => (s.stage clock a).answers ++ (s.step clock a).1.answered steps

/-- An action that leaves a session at rest: it sends nothing, takes in no answer, has no new job
for the worker and changes nothing that stands still. -/
structure Rests (s : Session E) (t : Stage E) : Prop where
  sent : t.sent = []
  answers : t.answers = []
  still : t.session.highlighter.standstill = s.highlighter.standstill
  queued : t.session.highlighter.queued.length ≤ s.highlighter.queued.length
  jobs : ∀ j ∈ t.session.highlighter.jobs, j ∈ s.highlighter.jobs

theorem Rests.of_worker {h : Highlighter E} {d : Document}
    (hstill : h.standstill = s.highlighter.standstill)
    (hworker : h.worker = s.highlighter.worker) {n : Nat} :
    s.Rests { session := ⟨d, h⟩, discarded := n } where
  sent := rfl
  answers := rfl
  still := hstill
  queued := by
    show h.queued.length ≤ _
    rw [Highlighter.queued, Highlighter.queued, hworker]
  jobs j hj := by
    rw [Highlighter.jobs, ← hworker]
    exact hj

theorem rests_refl (s : Session E) : s.Rests { session := s } :=
  .of_worker (h := s.highlighter) rfl rfl

theorem rests_moveWorker (s : Session E) (clock : Clock) (m : WorkerMove) :
    s.Rests { session := ⟨s.document, s.highlighter.moveWorker clock m⟩ } where
  sent := rfl
  answers := rfl
  still := rfl
  queued := s.highlighter.length_queued_moveWorker_le clock m
  jobs _ hj := Highlighter.mem_jobs_moveWorker hj

/-- While highlighting is off every action but turning it on leaves the session at rest. -/
theorem rests_stage (hoff : s.highlighter.isDisabled = true) (ha : a ≠ .enable) (clock : Clock) :
    s.Rests (s.stage clock a) := by
  cases a with
  | enable => exact (ha rfl).elim
  | edit r text =>
    rcases s.stage_edit clock r text with ⟨e, d, -, -, hstage⟩ | ⟨-, hstage⟩
    · rw [hstage, Highlighter.askChanged, if_pos hoff]
      exact .of_worker rfl rfl
    · rw [hstage]
      exact s.rests_refl
  | setTheme theme =>
    simp only [stage, Highlighter.setTheme]
    rw [if_pos (show ({ s.highlighter with theme } : Highlighter E).isDisabled = true from hoff)]
    exact .of_worker (h := { s.highlighter with theme }) rfl rfl
  | setLanguage g =>
    obtain ⟨grammar, hparser, -⟩ := s.highlighter.parser.setLanguage_cases g
    simp only [stage, Highlighter.askLanguage]
    rw [if_pos hoff]
    refine .of_worker (h := s.highlighter.load g) ?_ rfl
    simp only [Highlighter.load, hparser]
    rfl
  | disable =>
    simp only [stage, Highlighter.disable]
    rw [if_pos hoff]
    exact s.rests_refl
  | setCursors positions => exact .of_worker (h := s.highlighter.setCursors positions) rfl rfl
  | setParseTimeout micros =>
    exact .of_worker (h := s.highlighter.setParseTimeout micros) rfl rfl
  | idle =>
    simp only [stage, Highlighter.askIdle]
    rw [if_pos hoff]
    exact s.rests_refl
  | poll =>
    simp only [stage]
    cases hw : s.highlighter.worker with
    | none => exact s.rests_refl
    | some w =>
      simp only [Highlighter.kept_of_isDisabled hoff]
      refine ⟨rfl, rfl, rfl, ?_, fun j hj => ?_⟩
      · simp [Highlighter.queued, Highlighter.emptied, hw]
      · rw [← s.highlighter.jobs_emptied]
        exact hj
  | work m => exact s.rests_moveWorker clock m

theorem Rests.step_eq {t : Stage E} (hr : s.Rests t) :
    t.finish = (⟨t.session.document, t.session.highlighter.discard t.discarded⟩, []) := by
  rw [Stage.finish, hr.answers, hr.sent]
  rfl

/-- A run while highlighting is off: nothing happens but that jobs come to an end. -/
theorem silent_run (hoff : s.highlighter.isDisabled = true) {steps : List (Clock × Action E)}
    (hsteps : ∀ p ∈ steps, p.2 ≠ .enable) :
    s.sent steps = [] ∧ s.answered steps = [] ∧ s.newestJob none steps = none ∧
      (s.run steps).highlighter.standstill = s.highlighter.standstill ∧
      ∀ j ∈ (s.run steps).highlighter.jobs, j ∈ s.highlighter.jobs := by
  induction steps generalizing s with
  | nil => exact ⟨rfl, rfl, rfl, rfl, fun _ hj => hj⟩
  | cons step steps ih =>
    obtain ⟨clock, a⟩ := step
    have hrests := rests_stage hoff (hsteps (clock, a) (List.mem_cons_self ..)) clock
    have hstep : s.step clock a = _ := (s.step_eq clock a).trans hrests.step_eq
    have hstill : (s.step clock a).1.highlighter.standstill = s.highlighter.standstill := by
      rw [hstep]
      exact hrests.still
    have hjobs : ∀ j ∈ (s.step clock a).1.highlighter.jobs, j ∈ s.highlighter.jobs := by
      rw [hstep]
      exact hrests.jobs
    have hsent : s.jobSent clock a = none := by
      rw [jobSent_eq]
      exact Highlighter.sentSince_eq_none hrests.queued
    have hoff' : (s.step clock a).1.highlighter.isDisabled = true := by
      rw [Highlighter.isDisabled, show (s.step clock a).1.highlighter.state = s.highlighter.state
        from congrArg Standstill.state hstill]
      exact hoff
    obtain ⟨hupdates, hanswers, hnewest, hlater, hlaterJobs⟩ :=
      ih hoff' fun p hp => hsteps p (List.mem_cons_of_mem _ hp)
    refine ⟨?_, ?_, ?_, hlater.trans hstill, fun j hj => hjobs j (hlaterJobs j hj)⟩
    · rw [sent, hupdates, hstep]
      rfl
    · rw [answered, hanswers, hrests.answers]
      rfl
    · rw [newestJob, hsent]
      exact hnewest

/-! ### Before and while highlighting is off -/

/-- Highlighting that is on, or turned on, stays on unless it is turned off. -/
theorem enabled_step (hon : s.highlighter.isDisabled = false ∨ a = .enable) (ha : a ≠ .disable)
    (clock : Clock) : (s.step clock a).1.highlighter.isDisabled = false := by
  have hstage : (s.stage clock a).session.highlighter.isDisabled = false := by
    have hframe := s.stage_frame clock a
    show (s.stage clock a).session.highlighter.frame.isDisabled = false
    generalize (s.stage clock a).session.highlighter.frame = f at hframe
    cases hframe with
    | kept _ hrebuilds _ =>
      rcases hon with hon | rfl
      · exact hon
      · exact hrebuilds
    | edited _ hon => exact hon
    | ignored hmade hoff =>
      rcases hon with hon | rfl
      · cases hon.symm.trans hoff
      · cases hmade
    | themed htheme =>
      rcases hon with hon | rfl
      · exact hon
      · cases htheme
    | rebuilt => rfl
    | disabled hdisable => exact (ha hdisable).elim
  rw [step_eq]
  show ((s.stage clock a).session.highlighter.applyAll _).1.isDisabled = false
  cases (s.stage clock a).answers with
  | nil => exact hstage
  | cons answer rest =>
    rw [Highlighter.isDisabled, Highlighter.applyAll_state (List.cons_ne_nil answer rest)]
    rfl

/-- Turning highlighting off clears a highlighter and repaints the text without captures. -/
theorem step_disable (hon : s.highlighter.isDisabled = false) (clock : Clock) :
    s.step clock .disable =
      (⟨s.document, { s.highlighter with
        generation := s.highlighter.generation + 1
        parser := { s.highlighter.parser.invalidate with
          stats := { s.highlighter.stats with
            updatesEmitted := s.highlighter.stats.updatesEmitted + 1 } }
        spans := []
        deferred := []
        unpainted := none
        reparsePending := false
        state := .disabled }⟩,
      [.ofSpans s.highlighter.theme [] (Highlighter.wholeText s.document)]) := by
  show s.highlight Highlighter.disable = _
  rw [highlight, Highlighter.disable, if_neg (by simp [hon])]
  rfl

theorem step_disable_off (hoff : s.highlighter.isDisabled = true) (clock : Clock) :
    s.step clock .disable = (s, []) := by
  show s.highlight Highlighter.disable = _
  rw [highlight, Highlighter.disable, if_pos hoff]

theorem cleared_step (hc : s.highlighter.isDisabled = true → s.highlighter.Cleared) (clock : Clock)
    (a : Action E) (hoff : (s.step clock a).1.highlighter.isDisabled = true) :
    (s.step clock a).1.highlighter.Cleared := by
  by_cases hwas : s.highlighter.isDisabled = true
  · have ha : a ≠ .enable := by
      rintro rfl
      cases hoff.symm.trans (enabled_step (.inr rfl) (fun h => by cases h) clock)
    have hrests := rests_stage hwas ha clock
    refine (hc hwas).of_standstill ?_
    rw [s.step_eq clock a, hrests.step_eq]
    exact hrests.still
  · have hon := Highlighter.isDisabled_of_not hwas
    have ha : a = .disable := by
      by_contra hne
      cases hoff.symm.trans (enabled_step (.inl hon) hne clock)
    rw [ha, step_disable hon]
    exact ⟨rfl, rfl, rfl⟩

theorem cleared_run (hc : s.highlighter.isDisabled = true → s.highlighter.Cleared)
    (steps : List (Clock × Action E)) (hoff : (s.run steps).highlighter.isDisabled = true) :
    (s.run steps).highlighter.Cleared := by
  induction steps generalizing s with
  | nil => exact hc hoff
  | cons step steps ih => exact ih (cleared_step hc step.1 step.2) hoff

/-- A session that has just been turned off, or was off before. -/
structure TurnedOff (s : Session E) (off : Session E × List Repaint) : Prop where
  isDisabled : off.1.highlighter.isDisabled = true
  cleared : off.1.highlighter.Cleared
  jobs : off.1.highlighter.jobs = s.highlighter.jobs
  stats : off.1.highlighter.stats = { s.highlighter.stats with
    updatesEmitted := s.highlighter.stats.updatesEmitted + off.2.length }
  updates : off.2 = if s.highlighter.isDisabled then []
    else [.ofSpans s.highlighter.theme [] (Highlighter.wholeText s.document)]

theorem turnedOff_disable (hc : s.highlighter.isDisabled = true → s.highlighter.Cleared)
    (clock : Clock) : s.TurnedOff (s.step clock .disable) := by
  by_cases hoff : s.highlighter.isDisabled = true
  · rw [step_disable_off hoff]
    exact ⟨hoff, hc hoff, rfl, rfl, by rw [if_pos hoff]⟩
  · rw [step_disable (Highlighter.isDisabled_of_not hoff)]
    exact ⟨rfl, ⟨rfl, rfl, rfl⟩, rfl, rfl, by rw [if_neg hoff]⟩

/-- Highlighting that is off is silent. After any run, turning it off sends one update, of the whole
text without captures, or nothing if it was off before. From then on, whatever is done short of
turning it on again, no update is sent, no answer is taken in, no parse is begun and no job is sent
to the worker; no span is shown, no work is pending, and neither idle work nor results of the worker
come to anything. -/
theorem silent_while_disabled (config : Config) (theme : Theme) (d : Document)
    (steps : List (Clock × Action E)) (clock : Clock) (later : List (Clock × Action E))
    (hlater : ∀ p ∈ later, p.2 ≠ .enable) :
    let s := (opened config theme d).run steps
    let off := s.step clock .disable
    let t := off.1.run later
    let h := t.highlighter
    off.2 = (if s.highlighter.isDisabled then []
      else [.ofSpans s.highlighter.theme [] ⟨0, s.document.length⟩]) ∧
      off.1.sent later = [] ∧ off.1.answered later = [] ∧ off.1.newestJob none later = none ∧
      (∀ j ∈ h.jobs, j ∈ s.highlighter.jobs) ∧
      h.stats = { s.highlighter.stats with
        updatesEmitted := s.highlighter.stats.updatesEmitted + off.2.length
        discardedResults := h.stats.discardedResults } ∧
      h.parser.tree = none ∧ h.parser.paused = none ∧
      h.state = .disabled ∧ h.spans = [] ∧ h.hasPendingWork = false ∧
      ∀ clock, (h.idle clock t.document).more = false ∧ h.poll.applied = 0 ∧
        (h.pollBlocking clock).applied = 0 := by
  intro s off t h
  have hoff : s.TurnedOff off := turnedOff_disable
    (cleared_run (fun hoff => by cases hoff) steps) clock
  obtain ⟨hsent, hanswered, hnewest, hstill, hjobs⟩ := silent_run hoff.isDisabled hlater
  have hstate : h.state = .disabled :=
    (congrArg Standstill.state hstill).trans (Highlighter.state_of_isDisabled hoff.isDisabled)
  have hdisabled : h.isDisabled = true := by rw [Highlighter.isDisabled, hstate]; rfl
  have hcleared : h.Cleared := hoff.cleared.of_standstill hstill
  have hblank := (((inStep_opened config theme d).run steps).step clock .disable).run later |>.blank
    hdisabled
  have hstats : h.stats = { off.1.highlighter.stats with
      discardedResults := h.stats.discardedResults } :=
    congrArg (fun still : Standstill =>
      { still.stats with discardedResults := h.stats.discardedResults }) hstill
  rw [hoff.stats] at hstats
  refine ⟨hoff.updates, hsent, hanswered, hnewest, fun j hj => hoff.jobs ▸ hjobs j hj, hstats,
    hblank.1, hblank.2, hstate, hcleared.spans, hcleared.hasPendingWork hdisabled,
    fun clock => ⟨?_, ?_, ?_⟩⟩
  · simp [Highlighter.idle, Highlighter.hasIdleWork, hdisabled]
  · exact Highlighter.applied_poll_of_isDisabled hdisabled
  · exact Highlighter.applied_poll_of_isDisabled (h := h.awaitResult clock) hdisabled

/-- A text is turned off while the worker has a result to deliver and a parse is paused. A language
that does not load, among others, changes nothing that is seen. -/
theorem silent_while_disabled_busy :
    let s := (opened { backgroundQueries := true } (.plain "plain") Commas.pair).run
      Commas.busySteps
    let off := s.step .steady .disable
    let t := off.1.run Commas.offDuty
    s.highlighter.hasPendingWork = true ∧ s.highlighter.parser.paused.isSome = true ∧
      off.2.length = 1 ∧ off.1.sent Commas.offDuty = [] ∧ off.1.answered Commas.offDuty = [] ∧
      t.highlighter.hasPendingWork = false ∧ t.highlighter.stats.discardedResults = 1 ∧
      t.highlighter.degraded = some "broken" := by
  intro s off t
  have hsilent := silent_while_disabled { backgroundQueries := true } (.plain "plain") Commas.pair
    Commas.busySteps .steady Commas.offDuty (by simp [Commas.offDuty])
  refine ⟨by decide +kernel, by decide +kernel, by decide +kernel, hsilent.2.1, hsilent.2.2.1,
    hsilent.2.2.2.2.2.2.2.2.2.2.1, by decide +kernel, by decide +kernel⟩

end Session

end LiveHighlight
