import LiveHighlight.Proofs.Highlight.Parser
import LiveHighlight.Proofs.Host

/-! Only answers for the present text are taken in. The generation number is all that tells a result
of the worker from an older one: every job and result that carries the present generation was made
from the present tree, whatever the worker skips and whenever it delivers. -/

namespace LiveHighlight

variable {E : SyntaxEngine}

/-! ### The worker -/

/-- A job is not newer than the generation, and of the same one only if it queries the tree of the
text. -/
def QueryJob.Fits (j : QueryJob E) (p : DocumentParser E) (generation : Nat) (d : Document) :
    Prop :=
  j.generation ≤ generation ∧ (j.generation = generation → ∃ g, p.Parsed d g ∧
    j.target = ⟨E.parse g.language d.chars, g.query⟩ ∧ j.text = d ∧ j.limits = p.limits)

/-- A result is not newer than the generation, and of the same one only if it answers from the tree
of the text. -/
def JobResult.Fits (r : JobResult) (p : DocumentParser E) (generation : Nat) (d : Document) :
    Prop :=
  r.generation ≤ generation ∧ (r.generation = generation → ∃ g clock, p.Parsed d g ∧
    r.answer = g.query.runFollowing (E.parse g.language d.chars) d r.range p.limits clock)

/-- What a worker has to do and has done fits the text. -/
structure Worker.Fits (w : Worker E) (p : DocumentParser E) (generation : Nat) (d : Document) :
    Prop where
  jobs : ∀ j ∈ w.jobs, j.Fits p generation d
  results : ∀ r ∈ w.results, r.Fits p generation d

namespace Worker

theorem mem_jobs {w : Worker E} {j : QueryJob E} :
    j ∈ w.jobs ↔ j ∈ w.queue ∨ w.running = some j := by
  simp [jobs]

theorem mem_move (w : Worker E) (clock : Clock) (m : WorkerMove) :
    (∀ j ∈ (w.move clock m).jobs, j ∈ w.jobs) ∧
      ∀ r ∈ (w.move clock m).results, r ∈ w.results ∨ ∃ j ∈ w.jobs, r = j.result clock := by
  cases m with
  | skip =>
    simp only [move, skip]
    split
    · rename_i first newer rest hqueue
      refine ⟨fun j hj => ?_, fun r hr => .inl hr⟩
      rcases mem_jobs.mp hj with hj | hj
      · exact mem_jobs.mpr (.inl (by rw [hqueue]; exact List.mem_cons_of_mem first hj))
      · exact mem_jobs.mpr (.inr hj)
    · exact ⟨fun j hj => hj, fun r hr => .inl hr⟩
  | begin =>
    simp only [move, begin]
    split
    · rename_i first rest hrunning hqueue
      refine ⟨fun j hj => mem_jobs.mpr (.inl ?_), fun r hr => .inl hr⟩
      rw [hqueue]
      rcases mem_jobs.mp hj with hj | hj
      · exact List.mem_cons_of_mem first hj
      · cases hj
        exact List.mem_cons_self ..
    · exact ⟨fun j hj => hj, fun r hr => .inl hr⟩
  | finish =>
    simp only [move, finish]
    split
    · rename_i done hrunning
      refine ⟨fun j hj => ?_, fun r hr => ?_⟩
      · rcases mem_jobs.mp hj with hj | hj
        · exact mem_jobs.mpr (.inl hj)
        · cases hj
      · rcases List.mem_append.mp hr with hr | hr
        · exact .inl hr
        · exact .inr ⟨done, mem_jobs.mpr (.inr hrunning), List.mem_singleton.mp hr⟩
    · exact ⟨fun j hj => hj, fun r hr => .inl hr⟩

end Worker

section Worker

variable {w : Worker E} {p p' : DocumentParser E} {n n' : Nat} {d d' : Document}

theorem QueryJob.Fits.result {j : QueryJob E} (h : j.Fits p n d) (clock : Clock) :
    (j.result clock).Fits p n d := by
  refine ⟨h.1, fun hgeneration => ?_⟩
  obtain ⟨g, hparsed, htarget, htext, hlimits⟩ := h.2 hgeneration
  exact ⟨g, clock, hparsed, by simp only [QueryJob.result, htarget, htext, hlimits]⟩

theorem JobResult.Fits.current {r : JobResult} (h : r.Fits p n d) (hn : r.generation = n) :
    r.answer.Current p.limits d p.grammar r.range := by
  obtain ⟨g, clock, hparsed, hanswer⟩ := h.2 hn
  rw [hanswer, hparsed.grammar]
  exact .parsed g r.range clock

theorem Worker.Fits.older (h : w.Fits p n d) (hn : n < n') : w.Fits p' n' d' where
  jobs j hj := by
    have := (h.jobs j hj).1
    exact ⟨by omega, fun heq => by omega⟩
  results r hr := by
    have := (h.results r hr).1
    exact ⟨by omega, fun heq => by omega⟩

/-- A worker that has nothing of the present generation fits any text. -/
theorem Worker.Fits.of_not_parsed (h : w.Fits p n d) (hp : ∀ g, ¬ p.Parsed d g) :
    w.Fits p' n d' where
  jobs j hj := ⟨(h.jobs j hj).1, fun heq => by
    obtain ⟨g, hparsed, -⟩ := (h.jobs j hj).2 heq
    exact (hp g hparsed).elim⟩
  results r hr := ⟨(h.results r hr).1, fun heq => by
    obtain ⟨g, clock, hparsed, -⟩ := (h.results r hr).2 heq
    exact (hp g hparsed).elim⟩

theorem Worker.Fits.congr (h : w.Fits p n d) (hp : ∀ g, p.Parsed d g → p'.Parsed d g)
    (hlimits : p'.limits = p.limits) : w.Fits p' n d where
  jobs j hj := ⟨(h.jobs j hj).1, fun heq => by
    obtain ⟨g, hparsed, htarget, htext, hj⟩ := (h.jobs j hj).2 heq
    exact ⟨g, hp g hparsed, htarget, htext, hj.trans hlimits.symm⟩⟩
  results r hr := ⟨(h.results r hr).1, fun heq => by
    obtain ⟨g, clock, hparsed, hanswer⟩ := (h.results r hr).2 heq
    exact ⟨g, clock, hp g hparsed, by rw [hanswer, hlimits]⟩⟩

theorem Worker.Fits.submit (h : w.Fits p n d) {j : QueryJob E} (hj : j.Fits p n d) :
    (w.submit j).Fits p n d where
  jobs j' hj' := by
    rcases Worker.mem_jobs.mp hj' with hj' | hj'
    · rcases List.mem_append.mp hj' with hj' | hj'
      · exact h.jobs j' (Worker.mem_jobs.mpr (.inl hj'))
      · rw [List.mem_singleton.mp hj']
        exact hj
    · exact h.jobs j' (Worker.mem_jobs.mpr (.inr hj'))
  results := h.results

theorem Worker.Fits.move (h : w.Fits p n d) (clock : Clock) (m : WorkerMove) :
    (w.move clock m).Fits p n d where
  jobs j hj := h.jobs j ((w.mem_move clock m).1 j hj)
  results r hr := by
    rcases (w.mem_move clock m).2 r hr with hr | ⟨j, hj, rfl⟩
    · exact h.results r hr
    · exact (h.jobs j hj).result clock

theorem Worker.Fits.emptied (h : w.Fits p n d) : { w with results := [] }.Fits p n d :=
  ⟨h.jobs, fun _ hr => (List.not_mem_nil hr).elim⟩

end Worker

/-! ### The highlighter -/

namespace Highlighter

variable {h h' : Highlighter E} {d d' : Document}

/-- A highlighter in step with its text: it is behind it only while a parse is pending, and its
worker has nothing for another text under the present generation. -/
structure InStep (h : Highlighter E) (d : Document) : Prop where
  tracks : h.parser.Tracks d
  blank : h.isDisabled = true → h.parser.tree = none ∧ h.parser.paused = none
  caughtUp : h.isDisabled = false → h.reparsePending = false → h.parser.UpToDate
  worker : ∀ w, h.worker = some w → w.Fits h.parser h.generation d

/-- Two highlighters of one grammar and tree, at one generation. -/
structure SameTree (h h' : Highlighter E) : Prop where
  grammar : h'.parser.grammar = h.parser.grammar
  tree : h'.parser.tree = h.parser.tree
  dirty : h'.parser.dirty = h.parser.dirty
  paused : h'.parser.paused = h.parser.paused
  limits : h'.parser.limits = h.parser.limits
  generation : h'.generation = h.generation
  isDisabled : h'.isDisabled = h.isDisabled
  reparsePending : h'.reparsePending = h.reparsePending

theorem SameTree.parsed (hs : SameTree h h') {g : LoadedGrammar E} (hp : h.parser.Parsed d g) :
    h'.parser.Parsed d g :=
  ⟨hs.grammar.trans hp.grammar, hs.tree.trans hp.tree, hs.dirty.trans hp.clean⟩

theorem SameTree.upToDate (hs : SameTree h h') (hup : h.parser.UpToDate) : h'.parser.UpToDate := by
  unfold DocumentParser.UpToDate at hup ⊢
  rw [hs.grammar, hs.tree, hs.dirty]
  exact hup

theorem InStep.congr (hin : h.InStep d) (hs : SameTree h h')
    (hworker : ∀ w, h'.worker = some w → w.Fits h.parser h.generation d) : h'.InStep d where
  tracks := by
    refine ⟨fun g hg => hin.tracks.compiled g (hs.grammar ▸ hg), fun hg => ?_, fun q hq => ?_,
      fun g tree hg htree hclean => ?_⟩
    · rw [hs.tree, hs.paused]
      exact hin.tracks.plain (hs.grammar ▸ hg)
    · exact hin.tracks.paused q (hs.paused ▸ hq)
    · exact hin.tracks.current g tree (hs.grammar ▸ hg) (hs.tree ▸ htree) (hs.dirty ▸ hclean)
  blank hoff := by
    rw [hs.tree, hs.paused]
    exact hin.blank (hs.isDisabled ▸ hoff)
  caughtUp hon hpending := by
    exact hs.upToDate (hin.caughtUp (hs.isDisabled ▸ hon) (hs.reparsePending ▸ hpending))
  worker w hw := by
    rw [hs.generation]
    exact (hworker w hw).congr (fun g hp => hs.parsed hp) hs.limits

theorem apply_sameTree (hon : h.isDisabled = false) (r : ByteRange) (o : QueryAnswer) :
    SameTree h (h.apply r o).1 := by
  obtain ⟨stats, happly⟩ := h.apply_fst r o
  rw [happly]
  exact ⟨rfl, rfl, rfl, rfl, rfl, rfl, hon.symm, rfl⟩

theorem apply_worker (r : ByteRange) (o : QueryAnswer) : (h.apply r o).1.worker = h.worker := by
  obtain ⟨stats, happly⟩ := h.apply_fst r o
  rw [happly]
  rfl

theorem InStep.apply (hin : h.InStep d) (hon : h.isDisabled = false) (r : ByteRange)
    (o : QueryAnswer) : (h.apply r o).1.InStep d :=
  hin.congr (apply_sameTree hon r o) fun w hw => hin.worker w (apply_worker r o ▸ hw)

/-- Answers computed from the text as it is, for an enabled highlighter with nothing to parse. -/
def Answered (h : Highlighter E) (d : Document) (answers : List (ByteRange × QueryAnswer)) : Prop :=
  ∀ answer ∈ answers, h.isDisabled = false ∧ h.parser.UpToDate ∧
    answer.2.Current h.parser.limits d h.parser.grammar answer.1

theorem answered_nil (h : Highlighter E) (d : Document) : h.Answered d [] :=
  fun _ hmem => (List.not_mem_nil hmem).elim

theorem Answered.apply {r : ByteRange} {o : QueryAnswer}
    {rest : List (ByteRange × QueryAnswer)} (h' : h.Answered d ((r, o) :: rest)) :
    (h.apply r o).1.Answered d rest := by
  intro answer hmem
  obtain ⟨hon, hup, hcurrent⟩ := h' answer (List.mem_cons_of_mem _ hmem)
  have hs := apply_sameTree hon r o
  rw [hs.isDisabled, hs.limits, hs.grammar]
  exact ⟨hon, hs.upToDate hup, hcurrent⟩

/-- A highlighter after a query: in step, and with a current answer if it has one. -/
structure AskedInStep (a : Asked E) (d : Document) : Prop where
  inStep : a.highlighter.InStep d
  answered : a.highlighter.Answered d a.answered.toList

theorem InStep.unasked (hin : h.InStep d) : AskedInStep { highlighter := h } d :=
  ⟨hin, answered_nil h d⟩

/-- A query by a highlighter that has nothing to parse keeps it in step. -/
theorem InStep.ask (hin : h.InStep d) (hon : h.isDisabled = false) (hup : h.parser.UpToDate)
    (clock : Clock) (r : ByteRange) : AskedInStep (h.ask clock r d) d := by
  have hasked := h.asked hin.tracks hup clock r
  generalize h.ask clock r d = a at hasked ⊢
  cases hasked with
  | @sent w g hw hparsed =>
    refine ⟨hin.congr ⟨rfl, rfl, rfl, rfl, rfl, rfl, hon.symm, rfl⟩ fun w' hw' => ?_,
      answered_nil _ d⟩
    cases hw'
    exact (hin.worker w hw).submit
      ⟨Nat.le_refl _, fun _ => ⟨g, hparsed, rfl, rfl, rfl⟩⟩
  | answered hr hnone stats hcurrent =>
    refine ⟨hin.congr ⟨rfl, rfl, rfl, rfl, rfl, rfl, rfl, rfl⟩ hin.worker, fun x hx => ?_⟩
    rw [Option.toList_some, List.mem_singleton] at hx
    subst hx
    exact ⟨hon, hup, hcurrent⟩
  | refused hr =>
    exact ⟨hin.congr ⟨rfl, rfl, rfl, rfl, rfl, rfl, rfl, rfl⟩ hin.worker, answered_nil _ d⟩

/-- A parse that ended, with nothing of the present generation left from before, keeps a highlighter
in step. -/
theorem InStep.of_reparsed {p : DocumentParser E}
    {result : DocumentParser E × Except HighlightFailure (List ByteRange)} (htracks : p.Tracks d)
    (hresult : p.Reparsed d result) (hparser : h.parser = result.1)
    (hon : h.isDisabled = false) (hpending : h.reparsePending = false → h.parser.UpToDate)
    (hworker : ∀ w, h.worker = some w → w.Fits h.parser h.generation d) : h.InStep d where
  tracks := by
    rw [hparser]
    exact hresult.tracks htracks
  blank hoff := by
    rw [hon] at hoff
    cases hoff
  caughtUp _ := hpending
  worker := hworker

/-- Starting over brings a highlighter in step: all that the worker had has become old. -/
theorem rebuild_inStep (hcompiled : ∀ g, h.parser.grammar = some g → g.Compiled)
    (hworker : ∀ w, h.worker = some w → ∃ p d', w.Fits p h.generation d')
    (hon : h.isDisabled = false) (clock : Clock) : AskedInStep (h.rebuild clock d) d := by
  have htracks : h.parser.invalidate.Tracks d := .of_blank hcompiled rfl rfl
  have hreparsed := htracks.reparsed clock
  have hold : ∀ w, h.worker = some w → ∀ p, w.Fits p (h.generation + 1) d := fun w hw p => by
    obtain ⟨p', d', hfits⟩ := hworker w hw
    exact hfits.older (Nat.lt_succ_self _)
  unfold Highlighter.rebuild
  simp only [startOver]
  generalize h.parser.invalidate.reparse clock d = result at hreparsed ⊢
  obtain ⟨p, parsed⟩ := result
  cases parsed with
  | ok ranges =>
    refine InStep.ask (h := { h.startOver d with parser := p }) ?_ hon hreparsed.upToDate clock
      (wholeText d)
    exact .of_reparsed htracks hreparsed rfl hon (fun _ => hreparsed.upToDate)
      fun w hw => hold w hw _
  | error failure =>
    exact InStep.unasked (.of_reparsed htracks hreparsed rfl rfl
      (fun hpending => by cases hpending) fun w hw => hold w hw _)

/-! ### Actions -/

theorem isDisabled_of_not {h : Highlighter E} (hon : ¬ h.isDisabled = true) :
    h.isDisabled = false := by
  simpa using hon

theorem InStep.not_parsed (hin : h.InStep d) (hoff : h.isDisabled = true) (g : LoadedGrammar E) :
    ¬ h.parser.Parsed d g :=
  fun hp => (by cases (hin.blank hoff).1.symm.trans hp.tree)

theorem InStep.of_disabled (hin : h.InStep d) (hoff : h.isDisabled = true) : h.InStep d' where
  tracks := .of_blank hin.tracks.compiled (hin.blank hoff).1 (hin.blank hoff).2
  blank := hin.blank
  caughtUp hon := by
    rw [hoff] at hon
    cases hon
  worker w hw := (hin.worker w hw).of_not_parsed (hin.not_parsed hoff)

theorem InStep.askChanged (hin : h.InStep d) (clock : Clock) (e : TextEdit) :
    AskedInStep (h.askChanged clock e d') d' := by
  unfold Highlighter.askChanged
  split
  · rename_i hoff
    exact (hin.of_disabled hoff).unasked
  · rename_i hon
    have htracks : (h.moveAlong e).parser.Tracks d' := hin.tracks.applyEdit e
    have hreparsed := htracks.reparsed clock
    have hold : ∀ w, h.worker = some w → ∀ p, w.Fits p (h.generation + 1) d' :=
      fun w hw p => (hin.worker w hw).older (Nat.lt_succ_self _)
    simp only
    generalize (h.moveAlong e).parser.reparse clock d' = result at hreparsed ⊢
    obtain ⟨p, parsed⟩ := result
    cases parsed with
    | ok ranges =>
      refine InStep.ask (h := { h.moveAlong e with parser := p }) ?_ (isDisabled_of_not hon)
        hreparsed.upToDate clock _
      exact .of_reparsed htracks hreparsed rfl (isDisabled_of_not hon)
        (fun _ => hreparsed.upToDate) fun w hw => hold w hw _
    | error failure =>
      exact InStep.unasked (.of_reparsed htracks hreparsed rfl rfl
        (fun hpending => by cases hpending) fun w hw => hold w hw _)

theorem InStep.load (hin : h.InStep d) (g : Grammar E) (hoff : h.isDisabled = true) :
    (h.load g).InStep d := by
  obtain ⟨grammar, hp, hcompiled⟩ := h.parser.setLanguage_cases g
  have htracks : (h.load g).parser.Tracks d := h.parser.tracks_setLanguage g d
  refine ⟨htracks, fun _ => ?_, fun hon => (by cases hon.symm.trans hoff), fun w hw => ?_⟩
  · simp only [Highlighter.load, hp]
    exact ⟨rfl, rfl⟩
  · exact (hin.worker w hw).of_not_parsed (hin.not_parsed hoff)

theorem InStep.askLanguage (hin : h.InStep d) (clock : Clock) (g : Grammar E) :
    AskedInStep (h.askLanguage clock g d) d := by
  unfold Highlighter.askLanguage
  split
  · rename_i hoff
    exact (hin.load g hoff).unasked
  · rename_i hon
    obtain ⟨grammar, hp, hcompiled⟩ := h.parser.setLanguage_cases g
    refine rebuild_inStep (h := h.load g) (fun loaded hloaded => hcompiled loaded ?_)
      (fun w hw => ⟨h.parser, d, hin.worker w hw⟩) (isDisabled_of_not hon) clock
    simpa only [Highlighter.load, hp] using hloaded

theorem InStep.askEnabled (hin : h.InStep d) (clock : Clock) :
    AskedInStep (h.askEnabled clock d) d := by
  unfold Highlighter.askEnabled
  split
  · exact rebuild_inStep (h := { h with state := .idle }) hin.tracks.compiled
      (fun w hw => ⟨h.parser, d, hin.worker w hw⟩) rfl clock
  · exact hin.unasked

theorem InStep.askIdle (hin : h.InStep d) (clock : Clock) : AskedInStep (h.askIdle clock d) d := by
  unfold Highlighter.askIdle
  split
  · exact hin.unasked
  · rename_i hon
    have hon := isDisabled_of_not hon
    split
    · rename_i hpending
      have hreparsed := hin.tracks.reparsed clock
      have hworker : ∀ w, h.worker = some w →
          w.Fits (h.parser.reparse clock d).1 h.generation d := fun w hw =>
        (hin.worker w hw).congr (fun _ hp => hreparsed.parsed_of_parsed hp) hreparsed.limits
      simp only
      generalize h.parser.reparse clock d = result at hreparsed hworker ⊢
      obtain ⟨p, parsed⟩ := result
      cases parsed with
      | ok ranges =>
        refine InStep.ask (h := { h with parser := p, reparsePending := false }) ?_ hon
          hreparsed.upToDate clock _
        exact .of_reparsed hin.tracks hreparsed rfl hon (fun _ => hreparsed.upToDate) hworker
      | error failure =>
        refine InStep.unasked (.of_reparsed hin.tracks hreparsed rfl hon (fun hdone => ?_) hworker)
        cases hdone.symm.trans hpending
    · rename_i hpending
      have hup := hin.caughtUp hon (by simpa using hpending)
      split
      · exact hin.unasked
      · split
        · exact hin.unasked
        · rename_i next others _
          refine InStep.ask (h := { h with deferred := others }) ?_ hon hup clock _
          exact hin.congr ⟨rfl, rfl, rfl, rfl, rfl, rfl, rfl, rfl⟩ hin.worker

theorem InStep.disable (hin : h.InStep d) : (h.disable d).1.InStep d := by
  unfold Highlighter.disable
  split
  · exact hin
  · refine ⟨hin.tracks.invalidate.withStats _, fun _ => ⟨rfl, rfl⟩, fun hon => (by cases hon),
      fun w hw => ?_⟩
    exact (hin.worker w hw).older (Nat.lt_succ_self _)

theorem InStep.setTheme (hin : h.InStep d) (theme : Theme) : (h.setTheme theme d).1.InStep d := by
  unfold Highlighter.setTheme
  simp only
  split <;> exact hin.congr ⟨rfl, rfl, rfl, rfl, rfl, rfl, rfl, rfl⟩ hin.worker

theorem InStep.setParseTimeout (hin : h.InStep d) (micros : UInt64) :
    (h.setParseTimeout micros).InStep d := by
  have hlimits : (h.parser.setParseTimeout micros).limits = h.parser.limits := by
    simp only [DocumentParser.limits, DocumentParser.setParseTimeout, Config.queryBounds,
      Config.queryBudget]
  exact hin.congr ⟨rfl, rfl, rfl, rfl, hlimits, rfl, rfl, rfl⟩ hin.worker

theorem InStep.moveWorker (hin : h.InStep d) (clock : Clock) (m : WorkerMove) :
    (h.moveWorker clock m).InStep d := by
  refine hin.congr ⟨rfl, rfl, rfl, rfl, rfl, rfl, rfl, rfl⟩ fun w hw => ?_
  obtain ⟨w', hw', rfl⟩ := Option.map_eq_some_iff.mp hw
  exact (hin.worker w' hw').move clock m

theorem InStep.emptied (hin : h.InStep d) : h.emptied.InStep d := by
  refine hin.congr ⟨rfl, rfl, rfl, rfl, rfl, rfl, rfl, rfl⟩ fun w' hw' => ?_
  obtain ⟨w, hw, rfl⟩ := Option.map_eq_some_iff.mp hw'
  exact (hin.worker w hw).emptied

/-- The accepted results of the worker answer from the text as it is. -/
theorem InStep.kept_answered (hin : h.InStep d) {w : Worker E} (hw : h.worker = some w) :
    h.emptied.Answered d (h.kept w.results) := by
  intro answer hmem
  obtain ⟨r, hr, rfl⟩ := List.mem_map.mp hmem
  obtain ⟨hr, haccepts⟩ := List.mem_filter.mp hr
  rw [accepts, Bool.and_eq_true, beq_iff_eq, Bool.not_eq_true'] at haccepts
  have hfits := (hin.worker w hw).results r hr
  obtain ⟨g, -, hparsed, -⟩ := hfits.2 haccepts.1
  exact ⟨haccepts.2, fun _ => ⟨Option.isSome_of_eq_some hparsed.tree, hparsed.clean⟩,
    hfits.current haccepts.1⟩

theorem InStep.discard (hin : h.InStep d) (count : Nat) : (h.discard count).InStep d :=
  hin.congr ⟨rfl, rfl, rfl, rfl, rfl, rfl, rfl, rfl⟩ hin.worker

theorem InStep.applyAll {answers : List (ByteRange × QueryAnswer)} (hin : h.InStep d)
    (hanswers : h.Answered d answers) : (h.applyAll answers).1.InStep d := by
  induction answers generalizing h with
  | nil => exact hin
  | cons answer rest ih =>
    have hon := (hanswers answer (List.mem_cons_self ..)).1
    exact ih (hin.apply hon answer.1 answer.2) hanswers.apply

end Highlighter

/-! ### Runs -/

namespace Session

/-- A session whose highlighter is in step with its text. -/
abbrev InStep (s : Session E) : Prop := s.highlighter.InStep s.document

theorem inStep_opened (config : Config) (theme : Theme) (d : Document) :
    (opened config theme d : Session E).InStep where
  tracks := .of_blank (fun _ h => by cases h) rfl rfl
  blank _ := ⟨rfl, rfl⟩
  caughtUp _ _ hnone := by cases hnone
  worker w hw := by
    simp only [opened, Highlighter.create] at hw
    split at hw
    · cases hw
      exact ⟨fun _ hj => (List.not_mem_nil hj).elim, fun _ hr => (List.not_mem_nil hr).elim⟩
    · cases hw

end Session

/-- A session in the middle of an action: in step, and with current answers only. -/
structure Stage.InStep (t : Stage E) : Prop where
  session : t.session.InStep
  answered : t.session.highlighter.Answered t.session.document t.answers

theorem Highlighter.AskedInStep.stage {a : Asked E} {d : Document} (ha : AskedInStep a d) :
    (a.stage d).InStep :=
  ⟨ha.inStep, ha.answered⟩

namespace Session

/-- In the middle of every action a session is in step and has current answers only. -/
theorem InStep.stage {s : Session E} (hin : s.InStep) (clock : Clock) (a : Action E) :
    (s.stage clock a).InStep := by
  have unasked : ∀ {h : Highlighter E} {sent}, h.InStep s.document →
      Stage.InStep { session := ⟨s.document, h⟩, sent := sent } :=
    fun hin => ⟨hin, Highlighter.answered_nil _ _⟩
  cases a with
  | edit r text =>
    rcases s.stage_edit clock r text with ⟨e, d, -, -, hstage⟩ | ⟨-, hstage⟩
    · rw [hstage]
      have hasked : Highlighter.AskedInStep (s.highlighter.askChanged clock e d) d :=
        hin.askChanged clock e
      exact hasked.stage
    · rw [hstage]
      exact unasked hin
  | setTheme theme => exact unasked (hin.setTheme theme)
  | setLanguage g => exact (hin.askLanguage clock g).stage
  | disable => exact unasked hin.disable
  | enable => exact (hin.askEnabled clock).stage
  | setCursors positions =>
    exact unasked (hin.congr ⟨rfl, rfl, rfl, rfl, rfl, rfl, rfl, rfl⟩ hin.worker)
  | setParseTimeout micros => exact unasked (hin.setParseTimeout micros)
  | idle => exact (hin.askIdle clock).stage
  | work m => exact unasked (hin.moveWorker clock m)
  | poll =>
    simp only [Session.stage]
    cases hw : s.highlighter.worker with
    | some w => exact ⟨hin.emptied, hin.kept_answered hw⟩
    | none => exact unasked hin

theorem InStep.step {s : Session E} (hin : s.InStep) (clock : Clock) (a : Action E) :
    (s.step clock a).1.InStep := by
  have hstage := hin.stage clock a
  rw [step_eq]
  exact (hstage.session.applyAll hstage.answered).discard _

theorem grammar_applyAll {h : Highlighter E} {d : Document}
    {answers : List (ByteRange × QueryAnswer)} (hanswers : h.Answered d answers) :
    (h.applyAll answers).1.parser.grammar = h.parser.grammar := by
  induction answers generalizing h with
  | nil => rfl
  | cons answer rest ih =>
    have hon := (hanswers answer (List.mem_cons_self ..)).1
    exact (ih hanswers.apply).trans (Highlighter.apply_sameTree hon _ _).grammar

theorem InStep.run {s : Session E} (hin : s.InStep) (steps : List (Clock × Action E)) :
    (s.run steps).InStep := by
  induction steps generalizing s with
  | nil => exact hin
  | cons step steps ih => exact ih (hin.step step.1 step.2)

/-- Stale answers are never taken in. Whatever came before and whatever the worker has done by then,
an action ends by taking in, in turn, answers computed from the tree of the text that the session
holds at that moment and by the grammar it has at that moment, or empty ones where it has none. Of
the results of the worker, polling takes in those of the present generation; the others leave all as
it is but for the number of results discarded. -/
theorem answers_current (config : Config) (theme : Theme) (d : Document)
    (steps : List (Clock × Action E)) (clock : Clock) (a : Action E) :
    let s := (opened config theme d).run steps
    let t := s.stage clock a
    let after := (s.step clock a).1
    s.step clock a = t.finish ∧
      (∀ answer ∈ t.answers, answer.2.Current t.session.highlighter.parser.limits after.document
        after.highlighter.parser.grammar answer.1) ∧
      ∀ w, s.highlighter.worker = some w →
        let kept := (w.results.filter s.highlighter.accepts).map fun r => (r.range, r.answer)
        let done := s.highlighter.emptied.applyAll kept
        let discarded := w.results.length - kept.length
        (s.stage clock .poll).answers = kept ∧
          s.step clock .poll = (⟨s.document, done.1.discard discarded⟩, done.2) ∧
          (s.step clock .poll).1.highlighter.stats.discardedResults =
            s.highlighter.stats.discardedResults + discarded := by
  intro s t after
  have hin : s.InStep := (inStep_opened config theme d).run steps
  have hstage : t.InStep := hin.stage clock a
  have hstep : s.step clock a = t.finish := s.step_eq clock a
  refine ⟨hstep, fun answer hmem => ?_, fun w hw => ?_⟩
  · have hafter : after = t.finish.1 := congrArg Prod.fst hstep
    have hgrammar : after.highlighter.parser.grammar = t.session.highlighter.parser.grammar := by
      rw [hafter]
      exact grammar_applyAll hstage.answered
    have hdocument : after.document = t.session.document := by
      rw [hafter]
      rfl
    rw [hgrammar, hdocument]
    exact (hstage.answered answer hmem).2.2
  · have hpoll : s.step clock .poll =
        (⟨s.document, (s.highlighter.emptied.applyAll (s.highlighter.kept w.results)).1.discard
          (w.results.length - (s.highlighter.kept w.results).length)⟩,
        (s.highlighter.emptied.applyAll (s.highlighter.kept w.results)).2) := by
      simp only [step, highlight, Highlighter.poll_eq hw]
    refine ⟨?_, hpoll, ?_⟩
    · simp only [Session.stage, hw]
      rfl
    · rw [hpoll]
      exact congrArg (· + _) (Highlighter.applyAll_discarded s.highlighter.emptied _)

end Session

end LiveHighlight
