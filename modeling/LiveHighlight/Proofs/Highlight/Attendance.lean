import LiveHighlight.Proofs.Highlight.Commas
import LiveHighlight.Proofs.Highlight.Coverage

/-! Nothing that a highlighter waits for is lost. As long as a range waits, a parse is pending or
the newest job is on its way, and it is of the present generation: whatever the worker skips, it
skips for the newest job. So idle work reports that work remains exactly if it does. -/

namespace LiveHighlight

variable {E : SyntaxEngine}

/-! ### The newest job -/

/-- A job is the last one that a worker has: the last to wait, the one that runs with none behind
it, or the one of the last result. -/
inductive Worker.EndsWith (w : Worker E) (j : QueryJob E) : Prop
  | queued (hlast : w.queue.getLast? = some j)
  | running (hqueue : w.queue = []) (hrunning : w.running = some j)
  | finished (clock : Clock) (hqueue : w.queue = []) (hrunning : w.running = none)
      (hlast : w.results.getLast? = some (j.result clock))

namespace Worker

variable {w : Worker E} {j : QueryJob E}

theorem endsWith_submit (w : Worker E) (j : QueryJob E) : (w.submit j).EndsWith j :=
  .queued (by simp [submit])

/-- No move of a worker drops the last job: a job is skipped only for one behind it. -/
theorem EndsWith.move (h : w.EndsWith j) (clock : Clock) (m : WorkerMove) :
    (w.move clock m).EndsWith j := by
  cases m with
  | skip =>
    simp only [Worker.move, skip]
    split
    · rename_i first newer rest hqueue
      cases h with
      | queued hlast => exact .queued (by simpa [hqueue] using hlast)
      | running hnone => simp [hqueue] at hnone
      | finished _ hnone => simp [hqueue] at hnone
    · exact h
  | begin =>
    simp only [Worker.move, begin]
    split
    · rename_i first rest hrunning hqueue
      cases h with
      | queued hlast =>
        by_cases hrest : rest = []
        · have hfirst : first = j := by simpa [hqueue, hrest] using hlast
          exact .running hrest (congrArg some hfirst)
        · refine .queued ?_
          rw [hqueue, List.getLast?_cons_of_ne_nil hrest] at hlast
          exact hlast
      | running hnone => simp [hqueue] at hnone
      | finished _ hnone => simp [hqueue] at hnone
    · exact h
  | finish =>
    simp only [Worker.move, finish]
    split
    · rename_i done hrunning
      cases h with
      | queued hlast => exact .queued hlast
      | running hqueue hsome =>
        cases hrunning.symm.trans hsome
        exact .finished clock hqueue rfl (by simp)
      | finished _ _ hnone => cases hrunning.symm.trans hnone
    · exact h

theorem length_queue_move_le (w : Worker E) (clock : Clock) (m : WorkerMove) :
    (w.move clock m).queue.length ≤ w.queue.length := by
  cases m with
  | skip =>
    simp only [move, skip]
    split
    · rename_i hqueue
      simp [hqueue]
    · exact Nat.le_refl _
  | begin =>
    simp only [move, begin]
    split
    · rename_i hqueue
      simp [hqueue]
    · exact Nat.le_refl _
  | finish =>
    simp only [move, finish]
    split <;> exact Nat.le_refl _

end Worker

namespace Highlighter

variable {h h' b : Highlighter E} {d d' : Document} {newest : Option (QueryJob E)}

/-- The jobs that wait for the worker. -/
def queued (h : Highlighter E) : List (QueryJob E) := h.worker.elim [] (·.queue)

/-- No move of a worker adds to the jobs that wait. -/
theorem length_queued_moveWorker_le (h : Highlighter E) (clock : Clock) (m : WorkerMove) :
    (h.moveWorker clock m).queued.length ≤ h.queued.length := by
  cases hw : h.worker with
  | none => simp [queued, moveWorker, hw]
  | some w => simpa [queued, moveWorker, hw] using w.length_queue_move_le clock m

/-- The job sent between two states of a highlighter, if one was: what waits past all that waited
before. -/
def sentSince (b h : Highlighter E) : Option (QueryJob E) :=
  (h.queued.drop b.queued.length).getLast?

theorem sentSince_eq_none (hle : h.queued.length ≤ b.queued.length) :
    b.sentSince h = none := by
  rw [sentSince, List.drop_eq_nil_of_le hle]
  rfl

theorem sentSince_of_worker (hworker : h.worker = b.worker) : b.sentSince h = none :=
  sentSince_eq_none (Nat.le_of_eq (by rw [queued, queued, hworker]))

theorem sentSince_submit {w : Worker E} {j : QueryJob E} (hb : b.worker = some w)
    (hworker : h.worker = some (w.submit j)) : b.sentSince h = some j := by
  simp [sentSince, queued, hb, hworker, Worker.submit]

/-! ### Ranges in order -/

/-- A highlighter whose ranges are not reversed, none of the deferred ones being empty, and that has
nothing to do while it is off. -/
structure Orderly (h : Highlighter E) : Prop where
  waiting : ∀ r, h.state.waiting = some r → r.start ≤ r.stop
  deferred : ∀ r ∈ h.deferred, r.start < r.stop
  edits : ∀ r ∈ h.parser.pendingEdits, r.start ≤ r.stop
  off : h.isDisabled = true → h.reparsePending = false ∧ h.deferred = []

theorem Orderly.congr (ho : h.Orderly) (hstate : h'.state = h.state)
    (hdeferred : h'.deferred = h.deferred) (hedits : ∀ r ∈ h'.parser.pendingEdits, r.start ≤ r.stop)
    (hpending : h'.reparsePending = h.reparsePending) : h'.Orderly where
  waiting r hr := ho.waiting r (hstate ▸ hr)
  deferred r hr := ho.deferred r (hdeferred ▸ hr)
  edits := hedits
  off hoff := by
    rw [hpending, hdeferred]
    exact ho.off (by rw [← hoff, isDisabled, isDisabled, hstate])

theorem Orderly.apply (ho : h.Orderly) (r : ByteRange) (o : QueryAnswer) :
    (h.apply r o).1.Orderly := by
  obtain ⟨stats, happly⟩ := h.apply_fst r o
  rw [happly]
  refine ⟨fun q hq => (by cases hq), fun q hq => ?_, ho.edits, fun hoff => (by cases hoff)⟩
  rcases List.mem_append.mp hq with hq | hq
  · exact ho.deferred q hq
  · obtain ⟨hcut, rfl⟩ := mem_postponed hq
    exact hcut

theorem Orderly.applyAll (ho : h.Orderly) (answers : List (ByteRange × QueryAnswer)) :
    (h.applyAll answers).1.Orderly := by
  induction answers generalizing h with
  | nil => exact ho
  | cons answer rest ih => exact ih (ho.apply answer.1 answer.2)

/-! ### Attendance -/

/-- Whatever a highlighter waits for is on its way: a parse is pending, or the newest job is the
last one that the worker has, and of the present generation. -/
def Attended (h : Highlighter E) (newest : Option (QueryJob E)) : Prop :=
  ∀ r, h.state = .pending r → h.reparsePending = true ∨
    ∃ w j, h.worker = some w ∧ newest = some j ∧ j.generation = h.generation ∧ w.EndsWith j

theorem waiting_eq_some {r : ByteRange} : h.state.waiting = some r ↔ h.state = .pending r := by
  cases h.state <;> simp [HighlightPhase.waiting]

theorem Attended.of_not_waiting (hnone : h.state.waiting = none) : h.Attended newest := by
  intro r hr
  rw [hr] at hnone
  cases hnone

theorem Attended.of_reparse (hpending : h.reparsePending = true) : h.Attended newest :=
  fun _ _ => .inl hpending

theorem Attended.waiting_eq_none (ha : h.Attended newest) (hpending : ¬ h.reparsePending = true)
    (hfree : ¬ h.awaitsWorker = true) : h.state.waiting = none := by
  cases hwaiting : h.state.waiting with
  | none => rfl
  | some r =>
    rcases ha r (waiting_eq_some.mp hwaiting) with hreparse | ⟨w, j, hw, -⟩
    · exact (hpending hreparse).elim
    · refine (hfree ?_).elim
      rw [awaitsWorker, hw, hwaiting]
      rfl

/-- A highlighter after a query: its ranges are in order, and what it waits for is on its way unless
it has an answer to take in. -/
structure AskedAttended (b : Highlighter E) (newest : Option (QueryJob E)) (a : Asked E) :
    Prop where
  orderly : a.highlighter.Orderly
  attended : a.answered = none → a.highlighter.Attended ((b.sentSince a.highlighter).or newest)

theorem Attended.unasked (ha : h.Attended newest) (ho : h.Orderly)
    (hworker : h.worker = b.worker) : AskedAttended b newest { highlighter := h } where
  orderly := ho
  attended _ := by
    rw [sentSince_of_worker hworker]
    exact ha

theorem Orderly.ask (ho : h.Orderly) (hworker : h.worker = b.worker)
    (htracks : h.parser.Tracks d) (hup : h.parser.UpToDate) (clock : Clock) {r : ByteRange}
    (hr : r.start ≤ r.stop) (hrefused : ¬ d.Takes r → h.Attended newest) :
    AskedAttended b newest (h.ask clock r d) := by
  have hasked := h.asked htracks hup clock r
  generalize h.ask clock r d = a at hasked ⊢
  cases hasked with
  | sent hw hparsed =>
    refine ⟨⟨fun q hq => ?_, ho.deferred, ho.edits, fun hoff => (by cases hoff)⟩, fun _ q _ => ?_⟩
    · cases hq
      exact hr
    · rw [sentSince_submit (hworker.symm.trans hw) rfl]
      exact .inr ⟨_, _, rfl, rfl, rfl, Worker.endsWith_submit _ _⟩
  | answered =>
    exact ⟨ho.congr rfl rfl ho.edits rfl, fun hnone => by cases hnone⟩
  | refused hnot =>
    exact Attended.unasked (hrefused hnot) (ho.congr rfl rfl ho.edits rfl) hworker

/-! ### Actions -/

theorem Orderly.rebuild (hE : E.OrdersDifferences) (ho : h.Orderly)
    (hcompiled : ∀ g, h.parser.grammar = some g → g.Compiled) (hworker : h.worker = b.worker)
    (clock : Clock) (d : Document) : AskedAttended b newest (h.rebuild clock d) := by
  have htracks : h.parser.invalidate.Tracks d := .of_blank hcompiled rfl rfl
  have hreparsed := htracks.reparsed clock
  unfold Highlighter.rebuild
  simp only [startOver]
  generalize h.parser.invalidate.reparse clock d = result at hreparsed ⊢
  obtain ⟨p, parsed⟩ := result
  cases parsed with
  | ok ranges =>
    have hedits := (hreparsed.ordered hE fun r hr => by cases hr).1
    refine Orderly.ask (h := { h.startOver d with parser := p }) ?_ hworker
      (hreparsed.tracks htracks) hreparsed.upToDate clock (Nat.zero_le _)
      fun hrefused => (hrefused (takes_wholeText d)).elim
    refine ⟨ho.waiting, fun r hr => (by cases hr), fun r hr => ?_, fun _ => ⟨rfl, rfl⟩⟩
    cases (hedits ▸ hr : r ∈ [])
  | error failure =>
    have hedits : p.pendingEdits = [] := hreparsed.pendingEdits_of_error
    refine Attended.unasked (.of_reparse rfl) ⟨fun r hr => ?_, fun r hr => (by cases hr),
      fun r hr => ?_, fun hoff => (by cases hoff)⟩ hworker
    · cases hr
      exact Nat.zero_le _
    · cases (hedits ▸ hr : r ∈ [])

theorem Orderly.askChanged (hE : E.OrdersDifferences) (ho : h.Orderly) (ha : h.Attended newest)
    (hin : h.InStep d) {e : TextEdit} (he : e.start.offset ≤ e.newEnd.offset) (clock : Clock)
    (d' : Document) : AskedAttended h newest (h.askChanged clock e d') := by
  unfold Highlighter.askChanged
  split
  · exact ha.unasked ho rfl
  · rename_i hon
    have htracks : (h.moveAlong e).parser.Tracks d' := hin.tracks.applyEdit e
    have hreparsed := htracks.reparsed clock
    have hcarried : ∀ r, h.state.waiting.map e.carryRange = some r → r.start ≤ r.stop := by
      intro r hr
      obtain ⟨q, -, rfl⟩ := Option.map_eq_some_iff.mp hr
      exact TextEdit.start_le_stop_carryRange q
    have hdeferred : ∀ r ∈ (h.moveAlong e).deferred, r.start < r.stop := by
      intro r hr
      have hfull := (List.mem_filter.mp hr).2
      rw [Bool.not_eq_true', ← Bool.not_eq_true, ByteRange.isEmpty_iff] at hfull
      omega
    have hedits := DocumentParser.ordered_applyEdit he ho.edits
    simp only
    generalize (h.moveAlong e).parser.reparse clock d' = result at hreparsed ⊢
    obtain ⟨p, parsed⟩ := result
    cases parsed with
    | ok ranges =>
      obtain ⟨hnone, hordered⟩ := hreparsed.ordered hE hedits
      have hall : ∀ r ∈ ranges ++ (h.state.waiting.map e.carryRange).toList ++ [e.newRange],
          r.start ≤ r.stop := by
        intro r hr
        simp only [List.mem_append, Option.mem_toList, List.mem_singleton] at hr
        rcases hr with (hr | hr) | rfl
        · exact hordered r hr
        · exact hcarried r hr
        · exact he
      have htakes := takes_affectedRows hall d'
      refine Orderly.ask (h := { h.moveAlong e with parser := p }) (b := h) ?_ rfl
        (hreparsed.tracks htracks) hreparsed.upToDate clock htakes.ordered
        fun hrefused => (hrefused htakes).elim
      refine ⟨ho.waiting, hdeferred, fun r hr => ?_, fun hoff => (hon hoff).elim⟩
      cases (hnone ▸ hr : r ∈ [])
    | error failure =>
      have hkept : p.pendingEdits = _ := hreparsed.pendingEdits_of_error
      refine Attended.unasked (.of_reparse rfl) ⟨fun r hr => ?_, hdeferred, fun r hr => ?_,
        fun hoff => (by cases hoff)⟩ rfl
      · cases hr
        cases hwaiting : h.state.waiting.map e.carryRange with
        | none => exact he
        | some q =>
          have := hcarried q hwaiting
          simp only [ByteRange.hullWith, ByteRange.hull]
          omega
      · exact hedits r (hkept ▸ hr)

/-- Idle work sends off a deferred range only while nothing waits, or while there is no worker to
wait for. -/
theorem Orderly.askIdle (hE : E.OrdersDifferences) (ho : h.Orderly) (ha : h.Attended newest)
    (hin : h.InStep d) (clock : Clock) : AskedAttended h newest (h.askIdle clock d) := by
  unfold Highlighter.askIdle
  split
  · exact ha.unasked ho rfl
  · rename_i hon
    have hon := isDisabled_of_not hon
    split
    · rename_i hpending
      have hreparsed := hin.tracks.reparsed clock
      simp only
      generalize h.parser.reparse clock d = result at hreparsed ⊢
      obtain ⟨p, parsed⟩ := result
      cases parsed with
      | ok ranges =>
        obtain ⟨hnone, hordered⟩ := hreparsed.ordered hE ho.edits
        have hall : ∀ r ∈ ranges ++ h.state.waiting.toList, r.start ≤ r.stop := by
          intro r hr
          simp only [List.mem_append, Option.mem_toList] at hr
          exact hr.elim (hordered r) (ho.waiting r)
        have htakes := takes_affectedRows hall d
        refine Orderly.ask (h := { h with parser := p, reparsePending := false }) (b := h)
          ?_ rfl (hreparsed.tracks hin.tracks) hreparsed.upToDate clock htakes.ordered
          fun hrefused => (hrefused htakes).elim
        refine ⟨ho.waiting, ho.deferred, fun r hr => ?_, fun hoff => ?_⟩
        · cases (hnone ▸ hr : r ∈ [])
        · cases hon.symm.trans hoff
      | error failure =>
        have hkept : p.pendingEdits = _ := hreparsed.pendingEdits_of_error
        exact Attended.unasked (.of_reparse hpending)
          (ho.congr rfl rfl (fun r hr => ho.edits r (hkept ▸ hr)) rfl) rfl
    · rename_i hpending
      split
      · exact ha.unasked ho rfl
      · rename_i hfree
        split
        · exact ha.unasked ho rfl
        · rename_i next others horder
          have hmem : ∀ r, r = next ∨ r ∈ others → r ∈ h.deferred :=
            fun _ => (mem_deferred horder).mpr
          have hup := hin.caughtUp hon (by simpa using hpending)
          refine Orderly.ask (h := { h with deferred := others }) (b := h) ?_ rfl hin.tracks
            hup clock (Nat.le_of_lt (ho.deferred next (hmem next (.inl rfl)))) fun _ => ?_
          · refine ⟨ho.waiting, fun r hr => ho.deferred r (hmem r (.inr hr)), ho.edits, ?_⟩
            intro hoff
            cases hon.symm.trans hoff
          · exact .of_not_waiting (ha.waiting_eq_none hpending hfree)

theorem Orderly.askLanguage (hE : E.OrdersDifferences) (ho : h.Orderly) (ha : h.Attended newest)
    (clock : Clock) (g : Grammar E) (d : Document) :
    AskedAttended h newest (h.askLanguage clock g d) := by
  obtain ⟨grammar, hp, hcompiled⟩ := h.parser.setLanguage_cases g
  have hedits : ∀ r ∈ (h.load g).parser.pendingEdits, r.start ≤ r.stop := by
    intro r hr
    simp only [load, hp] at hr
    cases hr
  have hload : (h.load g).Orderly := ho.congr rfl rfl hedits rfl
  unfold Highlighter.askLanguage
  split
  · exact Attended.unasked (h := h.load g) ha hload rfl
  · refine hload.rebuild (b := h) hE (fun loaded hloaded => hcompiled loaded ?_) rfl clock d
    simpa only [load, hp] using hloaded

theorem Orderly.askEnabled (hE : E.OrdersDifferences) (ho : h.Orderly) (ha : h.Attended newest)
    (hin : h.InStep d) (clock : Clock) : AskedAttended h newest (h.askEnabled clock d) := by
  unfold Highlighter.askEnabled
  split
  · rename_i hoff
    have hidle : ({ h with state := .idle } : Highlighter E).Orderly :=
      ⟨fun r hr => (by cases hr), ho.deferred, ho.edits, fun hoff => (by cases hoff)⟩
    exact hidle.rebuild (b := h) hE hin.tracks.compiled rfl clock d
  · exact ha.unasked ho rfl

theorem Orderly.disable (ho : h.Orderly) (d : Document) : (h.disable d).1.Orderly := by
  unfold Highlighter.disable
  split
  · exact ho
  · exact ⟨fun r hr => (by cases hr), fun r hr => (by cases hr), fun r hr => (by cases hr),
      fun _ => ⟨rfl, rfl⟩⟩

theorem Attended.disable (ha : h.Attended newest) (d : Document) :
    (h.disable d).1.Attended newest := by
  unfold Highlighter.disable
  split
  · exact ha
  · exact .of_not_waiting rfl

theorem Attended.moveWorker (ha : h.Attended newest) (clock : Clock) (m : WorkerMove) :
    (h.moveWorker clock m).Attended newest := by
  intro r hr
  rcases ha r hr with hpending | ⟨w, j, hw, hnewest, hgeneration, hends⟩
  · exact .inl hpending
  · exact .inr ⟨w.move clock m, j, by rw [Highlighter.moveWorker, hw]; rfl, hnewest, hgeneration,
      hends.move clock m⟩

/-- If no result is taken in by polling, none was the one waited for. -/
theorem Attended.emptied (ha : h.Attended newest) {w : Worker E} (hw : h.worker = some w)
    (hnone : h.kept w.results = []) : h.emptied.Attended newest := by
  intro r hr
  rcases ha r hr with hpending | ⟨w', j, hw', hnewest, hgeneration, hends⟩
  · exact .inl hpending
  · cases hw.symm.trans hw'
    refine .inr ⟨{ w with results := [] }, j, by rw [Highlighter.emptied, hw]; rfl, hnewest,
      hgeneration, ?_⟩
    cases hends with
    | queued hlast => exact .queued hlast
    | running hqueue hrunning => exact .running hqueue hrunning
    | finished clock _ _ hlast =>
      have haccepts : h.accepts (j.result clock) = true := by
        have hstate : h.state = .pending r := hr
        rw [accepts, isDisabled, hstate, show (j.result clock).generation = h.generation from
          hgeneration, beq_self_eq_true]
        rfl
      have hmem : ((j.result clock).range, (j.result clock).answer) ∈ h.kept w.results :=
        List.mem_map_of_mem (List.mem_filter.mpr ⟨List.mem_of_getLast? hlast, haccepts⟩)
      rw [hnone] at hmem
      cases hmem

theorem applyAll_worker (h : Highlighter E) (answers : List (ByteRange × QueryAnswer)) :
    (h.applyAll answers).1.worker = h.worker := by
  induction answers generalizing h with
  | nil => rfl
  | cons answer rest ih => exact (ih _).trans (apply_worker _ _)

theorem applyAll_state {answers : List (ByteRange × QueryAnswer)} (hsome : answers ≠ []) :
    (h.applyAll answers).1.state = .idle := by
  induction answers generalizing h with
  | nil => exact (hsome rfl).elim
  | cons answer rest ih =>
    by_cases hrest : rest = []
    · obtain ⟨stats, happly⟩ := h.apply_fst answer.1 answer.2
      rw [hrest]
      simp only [applyAll, happly]
      rfl
    · exact ih hrest

/-- Idle work reports exactly the work that remains. -/
theorem Orderly.more_idle (ho : h.Orderly) (ha : h.Attended newest) (clock : Clock) (d : Document) :
    (h.idle clock d).more = (h.idle clock d).highlighter.hasPendingWork := by
  unfold idle
  simp only
  by_cases hwork : h.hasIdleWork = true
  · rw [hwork, Bool.true_and]
  have hwork := (Bool.not_eq_true _).mp hwork
  rw [hwork, Bool.false_and]
  symm
  unfold Highlighter.askIdle
  by_cases hoff : h.isDisabled = true
  · obtain ⟨hpending, hdeferred⟩ := ho.off hoff
    have hstate : h.state = .disabled := by simpa [isDisabled] using hoff
    rw [if_pos hoff]
    simp [Asked.take, hasPendingWork, hpending, hdeferred, hstate, HighlightPhase.waiting]
  · have hon := isDisabled_of_not hoff
    simp only [hasIdleWork, hon, Bool.not_false, Bool.true_and, Bool.or_eq_false_iff,
      Bool.not_eq_false', List.isEmpty_iff] at hwork
    obtain ⟨⟨hpending, hfree⟩, hdeferred⟩ := hwork
    have hwaiting := ha.waiting_eq_none (by simp [hpending]) (by simp [hfree])
    have hnone : h.cursors.byProximity d h.deferred = [] :=
      List.eq_nil_iff_forall_not_mem.mpr fun r hr => by
        rw [mem_byProximity, hdeferred] at hr
        cases hr
    rw [if_neg hoff, if_neg (by simp [hpending]), if_neg (by simp [hfree]), hnone]
    simp [Asked.take, hasPendingWork, hpending, hdeferred, hwaiting]

end Highlighter

/-! ### Runs -/

namespace Session

variable {s : Session E} {newest : Option (QueryJob E)}

/-- The job that an action sends to the worker, if it sends one. -/
def jobSent (s : Session E) (clock : Clock) (a : Action E) : Option (QueryJob E) :=
  s.highlighter.sentSince (s.step clock a).1.highlighter

/-- The job that was sent last by the end of a run, where `newest` was sent before it. -/
def newestJob (s : Session E) (newest : Option (QueryJob E)) :
    List (Clock × Action E) → Option (QueryJob E)
  | [] => newest
  | (clock, a) :: steps => (s.step clock a).1.newestJob ((s.jobSent clock a).or newest) steps

theorem jobSent_eq (s : Session E) (clock : Clock) (a : Action E) :
    s.jobSent clock a = s.highlighter.sentSince (s.stage clock a).session.highlighter := by
  have hworker : (s.step clock a).1.highlighter.worker =
      (s.stage clock a).session.highlighter.worker := by
    rw [step_eq]
    exact Highlighter.applyAll_worker _ _
  simp only [jobSent, Highlighter.sentSince, Highlighter.queued, hworker]

/-- In the middle of every action, what is waited for is on its way unless answers are taken in. -/
theorem attended_stage (hE : E.OrdersDifferences) (hin : s.InStep) (ho : s.highlighter.Orderly)
    (ha : s.highlighter.Attended newest) (clock : Clock) (a : Action E) :
    (s.stage clock a).session.highlighter.Orderly ∧ ((s.stage clock a).answers = [] →
      (s.stage clock a).session.highlighter.Attended ((s.jobSent clock a).or newest)) := by
  have asked : ∀ {a : Highlighter.Asked E},
      Highlighter.AskedAttended s.highlighter newest a → a.highlighter.Orderly ∧
        (a.answered.toList = [] → a.highlighter.Attended
          ((s.highlighter.sentSince a.highlighter).or newest)) :=
    fun h => ⟨h.orderly, fun hnone => h.attended (by simpa using hnone)⟩
  have unasked : ∀ {h : Highlighter E} {answers : List (ByteRange × QueryAnswer)}, h.Orderly →
      (answers = [] → h.Attended newest) → h.queued.length ≤ s.highlighter.queued.length →
      h.Orderly ∧ (answers = [] → h.Attended ((s.highlighter.sentSince h).or newest)) := by
    intro h answers ho ha hle
    rw [Highlighter.sentSince_eq_none hle]
    exact ⟨ho, ha⟩
  rw [jobSent_eq]
  cases a with
  | edit r text =>
    rcases s.stage_edit clock r text with ⟨e, d, hedit, -, hstage⟩ | ⟨-, hstage⟩
    · rw [hstage]
      exact asked (ho.askChanged hE ha hin hedit.length.2.1 clock d)
    · rw [hstage]
      exact unasked ho (fun _ => ha) (Nat.le_refl _)
  | setLanguage g => exact asked (ho.askLanguage hE ha clock g s.document)
  | enable => exact asked (ho.askEnabled hE ha hin clock)
  | idle => exact asked (ho.askIdle hE ha hin clock)
  | disable =>
    have hworker : (s.highlighter.disable s.document).1.worker = s.highlighter.worker := by
      unfold Highlighter.disable
      split <;> rfl
    refine unasked (h := (s.highlighter.disable s.document).1) (ho.disable s.document)
      (fun _ => ha.disable s.document) (Nat.le_of_eq ?_)
    rw [Highlighter.queued, Highlighter.queued, hworker]
  | setTheme theme =>
    obtain ⟨stats, hset⟩ : ∃ stats, (s.highlighter.setTheme theme s.document).1 =
        { s.highlighter with theme, parser := { s.highlighter.parser with stats } } := by
      simp only [Highlighter.setTheme]
      split
      · exact ⟨_, rfl⟩
      · exact ⟨_, rfl⟩
    refine unasked (h := (s.highlighter.setTheme theme s.document).1) ?_ (fun _ => ?_) ?_
    · exact hset ▸ ho.congr rfl rfl ho.edits rfl
    · exact hset ▸ ha
    · exact hset ▸ Nat.le_refl _
  | setCursors positions =>
    exact unasked (ho.congr rfl rfl ho.edits rfl) (fun _ => ha) (Nat.le_refl _)
  | setParseTimeout micros =>
    exact unasked (ho.congr rfl rfl ho.edits rfl) (fun _ => ha) (Nat.le_refl _)
  | work m =>
    exact unasked (h := s.highlighter.moveWorker clock m) (ho.congr rfl rfl ho.edits rfl)
      (fun _ => ha.moveWorker clock m) (s.highlighter.length_queued_moveWorker_le clock m)
  | poll =>
    simp only [stage]
    cases hw : s.highlighter.worker with
    | none => exact unasked ho (fun _ => ha) (Nat.le_refl _)
    | some w =>
      refine unasked (ho.congr rfl rfl ho.edits rfl) (fun hnone => ha.emptied hw hnone) ?_
      simp [Highlighter.queued, Highlighter.emptied, hw]

theorem attended_step (hE : E.OrdersDifferences) (hin : s.InStep) (ho : s.highlighter.Orderly)
    (ha : s.highlighter.Attended newest) (clock : Clock) (a : Action E) :
    (s.step clock a).1.highlighter.Orderly ∧
      (s.step clock a).1.highlighter.Attended ((s.jobSent clock a).or newest) := by
  obtain ⟨hstage, hattended⟩ := attended_stage hE hin ho ha clock a
  rw [step_eq]
  refine ⟨(hstage.applyAll _).congr rfl rfl (hstage.applyAll _).edits rfl, ?_⟩
  by_cases hnone : (s.stage clock a).answers = []
  · have hsame : (s.stage clock a).finish.1.highlighter =
        (s.stage clock a).session.highlighter.discard (s.stage clock a).discarded := by
      rw [Stage.finish, hnone]
      rfl
    rw [hsame]
    exact hattended hnone
  · refine .of_not_waiting ?_
    change ((s.stage clock a).session.highlighter.applyAll _).1.state.waiting = none
    rw [Highlighter.applyAll_state hnone]
    rfl

theorem attended_run (hE : E.OrdersDifferences) (hin : s.InStep) (ho : s.highlighter.Orderly)
    (ha : s.highlighter.Attended newest) (steps : List (Clock × Action E)) :
    (s.run steps).highlighter.Orderly ∧
      (s.run steps).highlighter.Attended (s.newestJob newest steps) := by
  induction steps generalizing s newest with
  | nil => exact ⟨ho, ha⟩
  | cons step steps ih =>
    obtain ⟨ho, ha⟩ := attended_step hE hin ho ha step.1 step.2
    exact ih (hin.step step.1 step.2) ho ha

theorem orderly_opened (config : Config) (theme : Theme) (d : Document) :
    (opened config theme d : Session E).highlighter.Orderly :=
  ⟨fun r hr => (by cases hr), fun r hr => (by cases hr), fun r hr => (by cases hr),
    fun _ => ⟨rfl, rfl⟩⟩

theorem attended_reached (hE : E.OrdersDifferences) (config : Config) (theme : Theme) (d : Document)
    (steps : List (Clock × Action E)) :
    ((opened config theme d).run steps).highlighter.Orderly ∧
      ((opened config theme d).run steps).highlighter.Attended
        ((opened config theme d).newestJob none steps) :=
  attended_run hE (inStep_opened config theme d) (orderly_opened config theme d)
    (.of_not_waiting rfl) steps

/-- What is waited for is never lost. In every state that a run reaches in which a range waits, a
parse is pending, or the job sent last is of the present generation and still waits, runs or has its
result ready; without a worker a parse is pending. So idle work always returns whether work is
pending right after it. It is assumed that ranges in which trees differ are not reversed. -/
theorem waiting_attended (hE : E.OrdersDifferences) (config : Config) (theme : Theme) (d : Document)
    (steps : List (Clock × Action E)) :
    let start : Session E := opened config theme d
    let s := start.run steps
    let h := s.highlighter
    (∀ r, h.state = .pending r → h.reparsePending = true ∨
      ∃ w j, h.worker = some w ∧ start.newestJob none steps = some j ∧
        j.generation = h.generation ∧ w.EndsWith j) ∧
      (h.worker = none → ∀ r, h.state = .pending r → h.reparsePending = true) ∧
      ∀ clock, (h.idle clock s.document).more =
        (s.step clock .idle).1.highlighter.hasPendingWork := by
  intro start s h
  obtain ⟨ho, ha⟩ : h.Orderly ∧ h.Attended (start.newestJob none steps) :=
    attended_reached hE config theme d steps
  refine ⟨ha, fun hnone r hr => ?_, fun clock => ho.more_idle ha clock s.document⟩
  rcases ha r hr with hpending | ⟨w, j, hw, -⟩
  · exact hpending
  · cases hnone.symm.trans hw

/-- Of two jobs that an edit and the one after it send, the worker skips the older one, and the
newer one is waited for while it runs. -/
theorem waiting_attended_pair :
    let start := opened { backgroundQueries := true } (.plain "plain") Commas.pair
    let steps := Commas.skippedSteps
    let h := (start.run steps).highlighter
    h.state = .pending ⟨0, 6⟩ ∧ h.reparsePending = false ∧
      ∃ w j, h.worker = some w ∧ start.newestJob none steps = some j ∧
        j.generation = h.generation ∧ w.EndsWith j := by
  have hstate : ((opened { backgroundQueries := true } (.plain "plain") Commas.pair).run
      Commas.skippedSteps).highlighter.state = .pending ⟨0, 6⟩ := by decide +kernel
  have hparsed : ((opened { backgroundQueries := true } (.plain "plain") Commas.pair).run
      Commas.skippedSteps).highlighter.reparsePending = false := by decide +kernel
  have hattended := waiting_attended Commas.ordersDifferences { backgroundQueries := true }
    (.plain "plain") Commas.pair Commas.skippedSteps
  refine ⟨hstate, hparsed, (hattended.1 _ hstate).resolve_left fun hpending => ?_⟩
  cases hparsed.symm.trans hpending

end Session

end LiveHighlight
