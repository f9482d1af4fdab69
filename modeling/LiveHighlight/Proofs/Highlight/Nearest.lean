import LiveHighlight.Proofs.Highlight.Commas
import LiveHighlight.Proofs.Highlight.Idling
import LiveHighlight.Proofs.Highlight.Ranges
import LiveHighlight.Proofs.Text.Cursors

/-! Which deferred range idle work takes. Without a worker and with nothing to parse, it queries the
one that is nearest to the cursors, and loses none of the others. -/

namespace LiveHighlight

variable {E : SyntaxEngine}

namespace Highlighter

variable {h : Highlighter E} {d : Document} {next : ByteRange} {others : List ByteRange}

theorem Resting.recalling (hr : h.Resting d) (last : Option ByteRange) :
    (h.recalling last).Resting d where
  inStep := hr.inStep.congr ⟨rfl, rfl, rfl, rfl, rfl, rfl, rfl, rfl⟩ hr.inStep.worker
  orderly := hr.orderly.congr rfl rfl hr.orderly.edits rfl
  inline := hr.inline
  on := hr.on
  parsed := hr.parsed
  free := hr.free
  takes := hr.takes

/-- An answer leaves for later what its range has past what it covers. -/
theorem postponed_eq {o : QueryAnswer} (ho : o.Sound d next) :
    postponed next o =
      if o.covered.stop < next.stop then [⟨o.covered.stop, next.stop⟩] else [] := by
  unfold postponed
  by_cases hcut : o.covered.stop < next.stop
  · rw [if_pos hcut, if_pos ⟨by rw [ho.unfinished hcut]; rfl, hcut⟩]
  · rw [if_neg hcut, if_neg fun hboth => hcut hboth.2]

end Highlighter

namespace Session

variable {s : Session E} {next : ByteRange} {others : List ByteRange}

/-- One range is queried and answered, and stays deferred from where its answer ends. -/
theorem idle_resting (hr : s.highlighter.Resting s.document)
    (horder : s.highlighter.cursors.byProximity s.document s.highlighter.deferred = next :: others)
    (clock : Clock) :
    ∃ o : QueryAnswer, o.Current s.highlighter.parser.limits s.document
        s.highlighter.parser.grammar next ∧ o.Sound s.document next ∧
      s.queried clock .idle = some next ∧ (s.stage clock .idle).answers = [(next, o)] ∧
      (s.step clock .idle).1.highlighter.deferred =
        others ++ if o.covered.stop < next.stop then [⟨o.covered.stop, next.stop⟩] else [] := by
  obtain ⟨o, stats, hcurrent, hask⟩ := hr.askIdle_answered horder clock
  obtain ⟨_, _, -, hblank⟩ := (hr.recalling none).askIdle_answered horder clock
  have htakes := hr.takes next ((Highlighter.mem_deferred horder).mpr (.inl rfl))
  have hsound : o.Sound s.document next := by
    have hanswered : s.highlighter.Answered s.document [(next, o)] := by
      intro answer hanswer
      rw [List.mem_singleton.mp hanswer]
      exact ⟨hr.on, hr.inStep.caughtUp hr.on hr.parsed, hcurrent⟩
    exact hanswered.sound ⟨htakes.ordered, htakes.le_length⟩
  refine ⟨o, hcurrent, hsound, ?_, ?_, ?_⟩
  · simp only [queried, stage, highlighter_recalling, document_recalling, hblank]
    rfl
  · simp only [stage, hask]
    rfl
  · obtain ⟨_, happly⟩ := Highlighter.apply_fst
      ({ s.highlighter with
        deferred := others
        lastRehighlight := some next
        parser := { s.highlighter.parser with stats } } : Highlighter E) next o
    simp only [step, highlight, Highlighter.idle, hask, Highlighter.Asked.take, happly]
    rw [← Highlighter.postponed_eq hsound]
    rfl

end Session

namespace Host

/-- Idle work takes the nearest deferred range and loses none. In every state that a run without a
worker reaches, with highlighting on, nothing to parse and something deferred, idle work queries one
deferred range: one that is nearest to the cursors, and of those equally near one that begins first.
It is answered at once from the text as it is. Deferred are then the other ranges, and of that range
what its answer does not cover. It is assumed that captures lie between characters and that ranges
in which trees differ are not reversed. -/
theorem idle_nearest (hE : E.OrdersDifferences) (hA : E.AlignsCaptures) (config : Config)
    (hinline : config.backgroundQueries = false) (theme : Theme) (d : Document)
    {steps : List (Clock × Action E)} (hfits : (opened config theme d).Fits steps) :
    let s := ((opened config theme d).run steps).session
    let h := s.highlighter
    h.isDisabled = false → h.reparsePending = false → h.deferred ≠ [] → ∀ clock,
      ∃ next others, ∃ o : QueryAnswer, h.deferred.Perm (next :: others) ∧
        h.cursors.Nearest s.document next others ∧
        s.queried clock .idle = some next ∧ (s.stage clock .idle).answers = [(next, o)] ∧
        o.Current h.parser.limits s.document h.parser.grammar next ∧ o.Sound s.document next ∧
        (s.step clock .idle).1.highlighter.deferred.Perm
          (others ++ if o.covered.stop < next.stop then [⟨o.covered.stop, next.stop⟩] else []) := by
  intro s h hon hparsed hsome clock
  have hsession : s = (Session.opened config theme d).run steps := run_session _ steps
  have hrest : h.Resting s.document := by
    obtain ⟨ho, ha⟩ := Session.attended_reached hE config theme d steps
    rw [← hsession] at ho ha
    have hworker : h.worker = none := by
      change s.highlighter.worker = none
      rw [hsession]
      exact Session.worker_run (Highlighter.worker_create hinline theme) steps
    have hworking := working_run (placement_takes hA) hE config theme d hfits
    exact hworking.resting ho ha hworker hon hparsed
  obtain ⟨next, others, horder⟩ := Highlighter.exists_next (d := s.document) hsome
  obtain ⟨o, hcurrent, hsound, hqueried, hanswers, hdeferred⟩ :=
    Session.idle_resting hrest horder clock
  refine ⟨next, others, o, ?_, Cursors.nearest_of_byProximity horder, hqueried, hanswers, hcurrent,
    hsound, ?_⟩
  · rw [← horder]
    exact (Highlighter.perm_byProximity h.cursors s.document h.deferred).symm
  · rw [hdeferred]

/-- The end of the second row, where the cursor is taken to be, is queried before the end of the
first row. -/
theorem idle_nearest_banks :
    let s := ((opened { queryBudgetMicros := 0 } (.plain "plain") Commas.banks).run
      Commas.bankSteps).session
    let h := s.highlighter
    h.isDisabled = false ∧ h.reparsePending = false ∧ h.deferred = [⟨128, 142⟩, ⟨64, 72⟩] ∧
      s.queried .steady .idle = some ⟨128, 142⟩ ∧ ∃ o : QueryAnswer, o.Sound s.document ⟨128, 142⟩ ∧
        (s.step .steady .idle).1.highlighter.deferred.Perm
          ([⟨64, 72⟩] ++ if o.covered.stop < 142 then [⟨o.covered.stop, 142⟩] else []) := by
  intro s h
  obtain ⟨hon, hparsed, hdeferred, hupper, hlower⟩ : h.isDisabled = false ∧
      h.reparsePending = false ∧ h.deferred = [⟨128, 142⟩, ⟨64, 72⟩] ∧
      h.cursors.distanceTo s.document ⟨64, 72⟩ = 1 ∧
      h.cursors.distanceTo s.document ⟨128, 142⟩ = 0 := by
    decide +kernel
  have hsome : h.deferred ≠ [] := by
    rw [hdeferred]
    exact List.cons_ne_nil _ _
  obtain ⟨next, others, o, hperm, ⟨n, hn, hothers⟩, hqueried, -, -, hsound, hleft⟩ :=
    idle_nearest Commas.ordersDifferences Commas.alignsCaptures { queryBudgetMicros := 0 } rfl
      (.plain "plain") Commas.banks Commas.banks_fit hon hparsed hsome .steady
  rw [hdeferred] at hperm
  have hnext : next = ⟨128, 142⟩ := by
    have hmem : next ∈ [(⟨128, 142⟩ : ByteRange), ⟨64, 72⟩] :=
      hperm.mem_iff.mpr (List.mem_cons_self ..)
    rcases List.mem_cons.mp hmem with heq | hmem
    · exact heq
    · -- The end of the first row is further from the cursor than the other range.
      obtain rfl := List.mem_singleton.mp hmem
      have hother : (⟨128, 142⟩ : ByteRange) ∈ others := by
        have hswap := (List.Perm.swap (⟨128, 142⟩ : ByteRange) ⟨64, 72⟩ []).trans hperm
        exact hswap.cons_inv.mem_iff.mp (List.mem_singleton_self _)
      obtain ⟨k, hk, hle⟩ := hothers _ hother
      have hfar : n = 1 := (hn.unique (Cursors.away_distanceTo _ _ _)).trans hupper
      have hnear : k = 0 := (hk.unique (Cursors.away_distanceTo _ _ _)).trans hlower
      omega
  subst hnext
  obtain rfl : others = [⟨64, 72⟩] := List.perm_singleton.mp hperm.cons_inv.symm
  refine ⟨hon, hparsed, hdeferred, hqueried, o, hsound, ?_⟩
  simp only [s]
  exact hleft

end Host

end LiveHighlight
