import LiveHighlight.Proofs.Highlight.Owed

/-! What is owed is kept through every action. An action may add to it: the bytes in which a parse
finds changes, those that are inserted, and all of a text that is parsed anew. -/

namespace LiveHighlight

variable {E : SyntaxEngine}

namespace DocumentParser

variable {p : DocumentParser E} {d d' : Document}

/-- The ranges in which a parse finds that what the text means may have changed. -/
def invalidated (p : DocumentParser E) (clock : Clock) (d : Document) : List ByteRange :=
  match (p.reparse clock d).2 with
  | .ok ranges => ranges
  | .error _ => []

theorem ordered_applyEdit {e : TextEdit} (he : e.start.offset ≤ e.newEnd.offset)
    (hedits : ∀ r ∈ p.pendingEdits, r.start ≤ r.stop) :
    ∀ r ∈ (p.applyEdit e).pendingEdits, r.start ≤ r.stop := by
  unfold applyEdit
  split
  · exact hedits
  · intro r hr
    rcases List.mem_append.mp hr with hr | hr
    · obtain ⟨q, -, rfl⟩ := List.mem_map.mp hr
      exact TextEdit.start_le_stop_carryRange q
    · rw [List.mem_singleton.mp hr]
      exact he

theorem Reparsed.ordered (hE : E.OrdersDifferences) {p' : DocumentParser E}
    {ranges : List ByteRange} (h : p.Reparsed d (p', .ok ranges))
    (hedits : ∀ r ∈ p.pendingEdits, r.start ≤ r.stop) :
    p'.pendingEdits = [] ∧ ∀ r ∈ ranges, r.start ≤ r.stop := by
  cases h with
  | plain hg => exact ⟨rfl, fun r hr => (List.not_mem_nil hr).elim⟩
  | @parsed g hg stats =>
    refine ⟨rfl, fun r hr => ?_⟩
    rcases List.mem_append.mp hr with hr | hr
    · unfold changedRanges at hr
      split at hr
      · exact hE _ _ r hr
      · rw [List.mem_singleton.mp hr]
        exact Nat.zero_le _
    · exact hedits r hr

theorem Reparsed.pendingEdits_of_error {p' : DocumentParser E} {failure : HighlightFailure}
    (h : p.Reparsed d (p', .error failure)) : p'.pendingEdits = p.pendingEdits := by
  cases h
  rfl

end DocumentParser

namespace Highlighter

variable {P : Document → ByteRange → Prop} {owed owed' : Nat → Prop} {h h' : Highlighter E}
  {d d' : Document}

theorem Owes.congr (ho : h.Owes P owed d []) {asked : List ByteRange}
    (hdeferred : h'.deferred = h.deferred) (hstate : h'.state = h.state)
    (hpending : h'.reparsePending = h.reparsePending)
    (hworker : h.worker.isSome = true → h'.worker.isSome = true)
    (hedits : ∀ r ∈ h'.parser.pendingEdits, r.start ≤ r.stop)
    (houtstanding : ∀ r ∈ asked ++ h'.outstanding, r ∈ h.outstanding)
    (hle : ∀ i, owed' i → owed i) : h'.Owes P owed' d asked := by
  have hdisabled : h'.isDisabled = h.isDisabled := by rw [isDisabled, isDisabled, hstate]
  have hdefers : ∀ i, h'.Defers i ↔ h.Defers i := fun i => by rw [Defers, Defers, hdeferred]
  have hwaits : ∀ i, h'.Waits i ↔ h.Waits i := fun i => by rw [Waits, Waits, hstate]
  refine ⟨fun r hr => ?_, fun _ r hr => ?_, fun r hr => ?_, hedits, fun hoff => ?_,
    fun hstrict _ hr => ?_, fun hstrict hon _ i hi => ?_, fun hstrict r hr i hi => ?_⟩
  · exact ho.deferred r (hdeferred ▸ hr)
  · exact ho.waiting rfl r (hstate ▸ hr)
  · exact ho.placed r (houtstanding r hr)
  · rw [hdeferred]
    exact ho.off (hdisabled ▸ hoff)
  · rw [hpending]
    exact (ho.attended hstrict rfl (hstate ▸ hr)).imp_right hworker
  · rw [hdefers, hwaits]
    exact ho.held hstrict (hdisabled ▸ hon) rfl i (hle i hi)
  · rw [hdefers]
    exact ho.covered hstrict r (houtstanding r hr) i (hle i hi)

/-! ### Queries -/

/-- A query takes over what is owed in its range. -/
theorem Owes.ask {r : ByteRange} (ho : h.Owes P owed d [r]) (htracks : h.parser.Tracks d)
    (hup : h.parser.UpToDate) (clock : Clock)
    (hwaiting : ¬ d.Takes r → ∀ q, h.state.waiting = some q → P d q) :
    (h.ask clock r d).highlighter.Owes P owed d
      ((h.ask clock r d).answered.toList.map Prod.fst) := by
  have hasked := h.asked htracks hup clock r
  have hr : P d r := ho.placed r (List.mem_cons_self ..)
  generalize h.ask clock r d = a at hasked ⊢
  cases hasked with
  | @sent w g hw hparsed =>
    let j : QueryJob E :=
      ⟨h.generation, ⟨E.parse g.language d.chars, g.query⟩, d, r, h.parser.limits⟩
    have houtstanding : ∀ q, q ∈ ({ h with
        lastRehighlight := some r
        worker := some (w.submit j)
        state := .pending r } : Highlighter E).outstanding → q ∈ [r] ++ h.outstanding := by
      intro q hq
      obtain ⟨w', hw', hq⟩ := mem_outstanding.mp hq
      cases hw'
      rcases hq with ⟨j', hj', hgeneration, rfl⟩ | hq
      · rcases Worker.mem_jobs.mp hj' with hj' | hj'
        · rcases List.mem_append.mp hj' with hj' | hj'
          · exact List.mem_cons_of_mem r (mem_outstanding.mpr
              ⟨w, hw, .inl ⟨j', Worker.mem_jobs.mpr (.inl hj'), hgeneration, rfl⟩⟩)
          · rw [List.mem_singleton.mp hj']
            exact List.mem_cons_self ..
        · exact List.mem_cons_of_mem r (mem_outstanding.mpr
            ⟨w, hw, .inl ⟨j', Worker.mem_jobs.mpr (.inr hj'), hgeneration, rfl⟩⟩)
      · exact List.mem_cons_of_mem r (mem_outstanding.mpr ⟨w, hw, .inr hq⟩)
    refine ⟨ho.deferred, fun _ q hq => ?_, fun q hq => ho.placed q (houtstanding q hq), ho.edits,
      fun hoff => (by cases hoff), fun _ _ _ => .inr rfl, fun hstrict _ _ i hi => ?_,
      fun hstrict q hq => ho.covered hstrict q (houtstanding q hq)⟩
    · cases hq
      exact hr
    · exact (ho.covered hstrict r (List.mem_cons_self ..) i hi).imp_right fun hin =>
        ⟨r, rfl, hin⟩
  | answered htakes hnone stats hcurrent =>
    exact .of_asked ho.deferred ho.placed ho.edits ho.off ho.covered
  | refused hrefused =>
    have hloose : ¬ Strict P := fun hstrict => hrefused (hstrict d r hr)
    exact ⟨ho.deferred, fun _ => hwaiting hrefused,
      fun q hq => ho.placed q (List.mem_cons_of_mem r hq), ho.edits, ho.off,
      fun hstrict => (hloose hstrict).elim, fun hstrict => (hloose hstrict).elim,
      fun hstrict => (hloose hstrict).elim⟩

/-- Nothing is outstanding before a query, which holds all that is owed. -/
theorem Owes.of_fresh {r : ByteRange} (hdeferred : ∀ q ∈ h.deferred, P d q) (hr : P d r)
    (hnone : h.outstanding = []) (hedits : ∀ q ∈ h.parser.pendingEdits, q.start ≤ q.stop)
    (hon : h.isDisabled = false)
    (hcovered : Strict P → ∀ i, owed i → h.Defers i ∨ r.contains i = true) :
    h.Owes P owed d [r] := by
  have honly : ∀ q ∈ [r] ++ h.outstanding, q = r := by
    intro q hq
    rw [hnone] at hq
    exact List.mem_singleton.mp hq
  refine .of_asked hdeferred (fun q hq => honly q hq ▸ hr) hedits (fun hoff => ?_)
    fun hstrict q hq => ?_
  · cases hon.symm.trans hoff
  · rw [honly q hq]
    exact hcovered hstrict

/-- A text that is parsed anew is owed as a whole. -/
theorem owes_rebuild (hP : Placement E P) (hE : E.OrdersDifferences)
    (hcompiled : ∀ g, h.parser.grammar = some g → g.Compiled) (hin : h'.InStep d')
    (hworker : h.worker = h'.worker) (hgeneration : h.generation = h'.generation)
    (hon : h.isDisabled = false) (clock : Clock) (howed : ∀ i, owed i → i < d.length) :
    (h.rebuild clock d).highlighter.Owes P owed d
      ((h.rebuild clock d).answered.toList.map Prod.fst) := by
  have htracks : h.parser.invalidate.Tracks d := .of_blank hcompiled rfl rfl
  have hreparsed := htracks.reparsed clock
  have hwhole : ∀ i, owed i → (wholeText d).contains i = true :=
    fun i hi => ByteRange.contains_iff.mpr ⟨Nat.zero_le i, howed i hi⟩
  unfold rebuild
  simp only [startOver]
  generalize h.parser.invalidate.reparse clock d = result at hreparsed ⊢
  obtain ⟨p, parsed⟩ := result
  cases parsed with
  | ok ranges =>
    have hnone : ({ h.startOver d with parser := p } : Highlighter E).outstanding = [] :=
      hin.outstanding_of_newer hworker (by simp only [startOver, hgeneration]; omega)
    have hordered := hreparsed.ordered hE (fun r hr => (List.not_mem_nil hr).elim)
    refine Owes.ask (h := { h.startOver d with parser := p }) ?_ (hreparsed.tracks htracks)
      hreparsed.upToDate clock fun hrefused => (hrefused (takes_wholeText d)).elim
    refine .of_fresh (fun q hq => (List.not_mem_nil hq).elim) (hP.takes (takes_wholeText d)) hnone
      (fun q hq => ?_) hon fun _ i hi => .inr (hwhole i hi)
    rw [hordered.1] at hq
    exact (List.not_mem_nil hq).elim
  | error failure =>
    have hnone : ({ h.startOver d with
        parser := p
        reparsePending := true
        state := .pending (wholeText d) } : Highlighter E).outstanding = [] :=
      hin.outstanding_of_newer hworker (by simp only [startOver, hgeneration]; omega)
    refine .of_paused rfl rfl hnone (fun q hq => (List.not_mem_nil hq).elim)
      (hP.takes (takes_wholeText d)) (fun q hq => ?_) fun _ i hi => .inr (hwhole i hi)
    have hedits : p.pendingEdits = [] := hreparsed.pendingEdits_of_error
    rw [show _ = p.pendingEdits from rfl, hedits] at hq
    exact (List.not_mem_nil hq).elim

/-! ### Edits -/

theorem placed_moveAlong (hP : Placement E P) (ho : h.Owes P owed d []) {e : TextEdit}
    (hedit : d.Edits e d') (hfits : d'.length < wordSize) :
    ∀ r ∈ (h.moveAlong e).deferred, P d' r := by
  intro r hr
  obtain ⟨q, hq, rfl⟩ := List.mem_map.mp (List.mem_filter.mp hr).1
  exact hP.carry hedit hfits (ho.deferred q hq)

theorem defers_moveAlong (hP : Placement E P) (ho : h.Owes P owed d []) {e : TextEdit}
    (he : e.Sound d.length) {i j : Nat} (hij : e.origin i = some j) (hj : h.Defers j) :
    (h.moveAlong e).Defers i := by
  obtain ⟨r, hr, hrj⟩ := hj
  have hri := he.contains_carryRange hij hrj (hP.holds (ho.deferred r hr)).inside
  refine ⟨e.carryRange r, List.mem_filter.mpr ⟨List.mem_map_of_mem hr, ?_⟩, hri⟩
  rw [ByteRange.contains_iff] at hri
  rw [Bool.not_eq_true', ← Bool.not_eq_true, ByteRange.isEmpty_iff]
  omega

theorem placed_carried (hP : Placement E P) (ho : h.Owes P owed d []) {e : TextEdit}
    (hedit : d.Edits e d') (hfits : d'.length < wordSize) {r : ByteRange}
    (hr : h.state.waiting.map e.carryRange = some r) : P d' r := by
  obtain ⟨q, hq, rfl⟩ := Option.map_eq_some_iff.mp hr
  exact hP.carry hedit hfits (ho.waiting rfl q hq)

/-- What was owed is moved along with the ranges that hold it. -/
theorem held_moveAlong (hP : Placement E P) (hstrict : Strict P) (ho : h.Owes P owed d [])
    (hon : h.isDisabled = false) {e : TextEdit} (he : e.Sound d.length) {i : Nat}
    (hi : e.splice False owed i) : (h.moveAlong e).Defers i ∨
      ∃ r ∈ (h.state.waiting.map e.carryRange).toList, r.contains i = true := by
  cases hij : e.origin i with
  | none =>
    rw [TextEdit.splice_of_inserted hij] at hi
    exact hi.elim
  | some j =>
    rw [TextEdit.splice_of_origin hij] at hi
    rcases ho.held hstrict hon rfl j hi with hj | ⟨q, hq, hj⟩
    · exact .inl (defers_moveAlong hP ho he hij hj)
    · refine .inr ⟨e.carryRange q, by rw [hq]; simp, ?_⟩
      exact he.contains_carryRange hij hj (hP.holds (ho.waiting rfl q hq)).inside

/-- A byte owed after an edit was owed before, or lies where the edit or the parse changed
something. -/
theorem Owes.askChanged (hP : Placement E P) (hE : E.OrdersDifferences) (hin : h.InStep d)
    (ho : h.Owes P owed d []) {e : TextEdit} (hedit : d.Edits e d') (hfits : d'.length < wordSize)
    (clock : Clock) (howed : h.isDisabled = false → ∀ i, owed' i → i < d'.length ∧
      (e.splice False owed i ∨
        ∃ r ∈ e.newRange :: (h.moveAlong e).parser.invalidated clock d', r.contains i = true)) :
    (h.askChanged clock e d').highlighter.Owes P owed' d'
      ((h.askChanged clock e d').answered.toList.map Prod.fst) := by
  unfold Highlighter.askChanged
  split
  · rename_i hoff
    exact owes_of_disabled hin hoff (ho.off hoff) ho.edits
  · rename_i hon
    have hon := isDisabled_of_not hon
    have howed := howed hon
    have htracks : (h.moveAlong e).parser.Tracks d' := hin.tracks.applyEdit e
    have hreparsed := htracks.reparsed clock
    have hdeferred := placed_moveAlong hP ho hedit hfits
    have hedits := DocumentParser.ordered_applyEdit hedit.length.2.1 ho.edits
    have hcarried := fun r => placed_carried hP ho hedit hfits (r := r)
    have hmoved := fun hstrict i => held_moveAlong hP hstrict ho hon (hedit.sound hfits) (i := i)
    simp only
    simp only [DocumentParser.invalidated] at howed
    generalize (h.moveAlong e).parser.reparse clock d' = result at hreparsed howed ⊢
    obtain ⟨p, parsed⟩ := result
    cases parsed with
    | ok ranges =>
      obtain ⟨hnoEdits, hordered⟩ := hreparsed.ordered hE hedits
      let all := ranges ++ (h.state.waiting.map e.carryRange).toList ++ [e.newRange]
      have hall : ∀ r ∈ all, r.start ≤ r.stop := by
        intro r hr
        rcases List.mem_append.mp hr with hr | hr
        · rcases List.mem_append.mp hr with hr | hr
          · exact hordered r hr
          · exact (hP.holds (hcarried r (Option.mem_toList.mp hr))).ordered
        · rw [List.mem_singleton.mp hr]
          exact hedit.length.2.1
      have htakes := takes_affectedRows hall d'
      have hnone : ({ h.moveAlong e with parser := p } : Highlighter E).outstanding = [] :=
        hin.outstanding_of_newer rfl (Nat.lt_succ_self _)
      refine Owes.ask (h := { h.moveAlong e with parser := p }) ?_ (hreparsed.tracks htracks)
        hreparsed.upToDate clock fun hrefused => (hrefused htakes).elim
      refine .of_fresh hdeferred (hP.takes htakes) hnone (fun q hq => ?_) hon
        fun hstrict i hi => ?_
      · rw [show _ = p.pendingEdits from rfl, hnoEdits] at hq
        exact (List.not_mem_nil hq).elim
      · obtain ⟨hlt, hi⟩ := howed i hi
        have hrows : ∀ r ∈ all, r.contains i = true → (affectedRows all d').contains i = true :=
          fun r hr hri => contains_affectedRows hr hri hlt
        rcases hi with hi | ⟨r, hr, hri⟩
        · rcases hmoved hstrict i hi with hi | ⟨r, hr, hri⟩
          · exact .inl hi
          · exact .inr (hrows r (by simp only [all, List.mem_append]; exact .inl (.inr hr)) hri)
        · rcases List.mem_cons.mp hr with rfl | hr
          · exact .inr (hrows e.newRange (by simp [all]) hri)
          · exact .inr (hrows r (by simp only [all, List.mem_append]; exact .inl (.inl hr)) hri)
    | error failure =>
      have hnone : ({ h.moveAlong e with
          parser := p
          reparsePending := true
          state := .pending (ByteRange.hullWith (h.state.waiting.map e.carryRange) e.newRange) } :
            Highlighter E).outstanding = [] :=
        hin.outstanding_of_newer rfl (Nat.lt_succ_self _)
      refine .of_paused rfl rfl hnone hdeferred
        (hP.hullWith hcarried (hP.takes hedit.takes_newRange)) (fun q hq => ?_)
        fun hstrict i hi => ?_
      · refine hedits q ?_
        rw [show _ = p.pendingEdits from rfl, hreparsed.pendingEdits_of_error] at hq
        exact hq
      · rcases (howed i hi).2 with hi | ⟨r, hr, hri⟩
        · rcases hmoved hstrict i hi with hi | ⟨r, hr, hri⟩
          · exact .inl hi
          · exact .inr (ByteRange.contains_hullWith (List.mem_cons_of_mem _ hr) hri)
        · rw [List.mem_singleton.mp hr] at hri
          exact .inr (ByteRange.contains_hullWith (List.mem_cons_self ..) hri)

/-! ### Idle work -/

theorem mem_byProximity (cursors : Cursors) (d : Document) {ranges : List ByteRange}
    {r : ByteRange} : r ∈ cursors.byProximity d ranges ↔ r ∈ ranges := by
  simp [Cursors.byProximity]

theorem mem_deferred {next : ByteRange} {others : List ByteRange}
    (horder : h.cursors.byProximity d h.deferred = next :: others) {r : ByteRange} :
    r ∈ h.deferred ↔ r = next ∨ r ∈ others := by
  rw [← mem_byProximity h.cursors d, horder, List.mem_cons]

/-- A parse that was paused before and ends now takes over what waits and what it finds changed. -/
theorem Owes.askReparsed (hP : Placement E P) (hE : E.OrdersDifferences) (hin : h.InStep d)
    (ho : h.Owes P owed d []) (hon : h.isDisabled = false) {p : DocumentParser E}
    {ranges : List ByteRange} (hreparsed : h.parser.Reparsed d (p, .ok ranges)) (clock : Clock)
    (howed : ∀ i, owed' i → i < d.length ∧ (owed i ∨ ∃ r ∈ ranges, r.contains i = true))
    (hbusy : h.outstanding ≠ [] → ∀ i, owed' i → owed i) :
    let a := { h with parser := p, reparsePending := false }.ask clock
      (affectedRows (ranges ++ h.state.waiting.toList) d) d
    a.highlighter.Owes P owed' d (a.answered.toList.map Prod.fst) := by
  obtain ⟨hnoEdits, hordered⟩ := hreparsed.ordered hE ho.edits
  let all := ranges ++ h.state.waiting.toList
  have hall : ∀ r ∈ all, r.start ≤ r.stop := by
    intro r hr
    rcases List.mem_append.mp hr with hr | hr
    · exact hordered r hr
    · exact (hP.holds (ho.waiting rfl r (Option.mem_toList.mp hr))).ordered
  have htakes := takes_affectedRows hall d
  refine Owes.ask (h := { h with parser := p, reparsePending := false }) ?_
    (hreparsed.tracks hin.tracks) hreparsed.upToDate clock fun hrefused => (hrefused htakes).elim
  refine .of_asked ho.deferred (fun q hq => ?_) (fun q hq => ?_) (fun hoff => ?_)
    fun hstrict q hq i hi => ?_
  · rcases List.mem_cons.mp hq with rfl | hq
    · exact hP.takes htakes
    · exact ho.placed q hq
  · rw [show _ = p.pendingEdits from rfl, hnoEdits] at hq
    exact (List.not_mem_nil hq).elim
  · cases hon.symm.trans hoff
  · rcases List.mem_cons.mp hq with rfl | hq
    · obtain ⟨hlt, hi⟩ := howed i hi
      have hrows : ∀ r ∈ all, r.contains i = true → (affectedRows all d).contains i = true :=
        fun r hr hri => contains_affectedRows hr hri hlt
      rcases hi with hi | ⟨r, hr, hri⟩
      · rcases ho.held hstrict hon rfl i hi with hi | ⟨r, hr, hri⟩
        · exact .inl hi
        · exact .inr (hrows r (by simp [all, hr]) hri)
      · exact .inr (hrows r (List.mem_append_left _ hr) hri)
    · exact ho.covered hstrict q hq i (hbusy (List.ne_nil_of_mem hq) i hi)

/-- A deferred range is asked for. What is owed in it must not be owed any more while another query
is out, which may be taken in first. -/
theorem Owes.askDeferred (ho : h.Owes P owed d []) (hin : h.InStep d) (hon : h.isDisabled = false)
    (hparsed : h.reparsePending = false) (hfree : h.awaitsWorker = false) {next : ByteRange}
    {others : List ByteRange} (horder : h.cursors.byProximity d h.deferred = next :: others)
    (clock : Clock) (howed : ∀ i, owed' i → owed i)
    (hbusy : h.outstanding ≠ [] → ∀ i, owed' i → next.contains i = false) :
    let a := { h with deferred := others }.ask clock next d
    a.highlighter.Owes P owed' d (a.answered.toList.map Prod.fst) := by
  have hmem : ∀ r, r ∈ h.deferred ↔ r = next ∨ r ∈ others := fun _ => mem_deferred horder
  have hdefers : ∀ i, h.Defers i → next.contains i = true ∨
      ({ h with deferred := others } : Highlighter E).Defers i := by
    rintro i ⟨r, hr, hi⟩
    rcases (hmem r).mp hr with rfl | hr
    · exact .inl hi
    · exact .inr ⟨r, hr, hi⟩
  refine Owes.ask (h := { h with deferred := others }) ?_ hin.tracks (hin.caughtUp hon hparsed)
    clock fun _ => ho.waiting rfl
  refine .of_asked (fun q hq => ho.deferred q ((hmem q).mpr (.inr hq))) (fun q hq => ?_) ho.edits
    (fun hoff => ?_) fun hstrict q hq i hi => ?_
  · rcases List.mem_cons.mp hq with rfl | hq
    · exact ho.deferred q ((hmem q).mpr (.inl rfl))
    · exact ho.placed q hq
  · cases hon.symm.trans hoff
  · rcases List.mem_cons.mp hq with rfl | hq
    · rcases ho.held hstrict hon rfl i (howed i hi) with hi | ⟨r, hr, -⟩
      · exact (hdefers i hi).symm
      -- No range waits: neither for the worker nor for a parse.
      · have hsome : h.state.waiting.isSome = true := by rw [hr]; rfl
        rcases ho.attended hstrict rfl hsome with hpending | hworker
        · cases hparsed.symm.trans hpending
        · rw [awaitsWorker, hworker, hsome] at hfree
          cases hfree
    · refine (ho.covered hstrict q hq i (howed i hi)).imp_left fun hi' => ?_
      refine (hdefers i hi').resolve_left fun hnext => ?_
      cases hnext.symm.trans (hbusy (List.ne_nil_of_mem hq) i hi)

/-- Idle work keeps what is owed, but for a range that is sent off too early. -/
theorem Owes.askIdle (hP : Placement E P) (hE : E.OrdersDifferences) (hin : h.InStep d)
    (ho : h.Owes P owed d []) (clock : Clock)
    (howed : h.isDisabled = false → ∀ i, owed' i → i < d.length ∧
      (owed i ∨ h.reparsePending = true ∧
        ∃ r ∈ h.parser.invalidated clock d, r.contains i = true))
    (hbusy : h.isDisabled = false → h.outstanding ≠ [] → ∀ i, owed' i → owed i ∧
      (h.reparsePending = false → h.awaitsWorker = false →
        (h.cursors.byProximity d h.deferred).head?.any (·.contains i) = false)) :
    (h.askIdle clock d).highlighter.Owes P owed' d
      ((h.askIdle clock d).answered.toList.map Prod.fst) := by
  unfold Highlighter.askIdle
  split
  · rename_i hoff
    exact owes_of_disabled hin hoff (ho.off hoff) ho.edits
  · rename_i hon
    have hon := isDisabled_of_not hon
    have howed := howed hon
    have hbusy := hbusy hon
    split
    · have hreparsed := hin.tracks.reparsed clock
      simp only
      simp only [DocumentParser.invalidated] at howed
      generalize h.parser.reparse clock d = result at hreparsed howed ⊢
      obtain ⟨p, parsed⟩ := result
      cases parsed with
      | ok ranges =>
        exact ho.askReparsed hP hE hin hon hreparsed clock
          (fun i hi => ⟨(howed i hi).1, (howed i hi).2.imp_right (·.2)⟩)
          fun hout i hi => (hbusy hout i hi).1
      | error failure =>
        refine ho.congr rfl rfl rfl id ?_ (fun _ hr => hr) fun i hi => ?_
        · rw [show _ = p.pendingEdits from rfl, hreparsed.pendingEdits_of_error]
          exact ho.edits
        · refine (howed i hi).2.resolve_right ?_
          rintro ⟨-, r, hr, -⟩
          exact List.not_mem_nil hr
    · rename_i hpending
      have howed : ∀ i, owed' i → owed i :=
        fun i hi => (howed i hi).2.resolve_right fun hr => hpending hr.1
      split
      · exact ho.congr rfl rfl rfl id ho.edits (fun _ hr => hr) howed
      · rename_i hfree
        have hparsed := (Bool.not_eq_true _).mp hpending
        have hfree := (Bool.not_eq_true _).mp hfree
        split
        · exact ho.congr rfl rfl rfl id ho.edits (fun _ hr => hr) howed
        · rename_i next others horder
          refine ho.askDeferred hin hon hparsed hfree horder clock howed fun hout i hi => ?_
          have hkept := (hbusy hout i hi).2 hparsed hfree
          rwa [horder, List.head?_cons, Option.any_some] at hkept

/-! ### The worker -/

theorem outstanding_moveWorker (h : Highlighter E) (clock : Clock) (m : WorkerMove) :
    ∀ r ∈ (h.moveWorker clock m).outstanding, r ∈ h.outstanding := by
  intro r hr
  obtain ⟨w', hw', hr⟩ := mem_outstanding.mp hr
  obtain ⟨w, hw, rfl⟩ := Option.map_eq_some_iff.mp hw'
  obtain ⟨hjobs, hresults⟩ := w.mem_move clock m
  refine mem_outstanding.mpr ⟨w, hw, ?_⟩
  rcases hr with ⟨j, hj, hgeneration, rfl⟩ | ⟨q, hq, hgeneration, rfl⟩
  · exact .inl ⟨j, hjobs j hj, hgeneration, rfl⟩
  · rcases hresults q hq with hq | ⟨j, hj, rfl⟩
    · exact .inr ⟨q, hq, hgeneration, rfl⟩
    · exact .inl ⟨j, hj, hgeneration, rfl⟩

theorem outstanding_emptied {w : Worker E} (hw : h.worker = some w) :
    ∀ r ∈ (h.kept w.results).map Prod.fst ++ h.emptied.outstanding, r ∈ h.outstanding := by
  intro r hr
  rcases List.mem_append.mp hr with hr | hr
  · obtain ⟨answer, hanswer, rfl⟩ := List.mem_map.mp hr
    obtain ⟨q, hq, rfl⟩ := List.mem_map.mp hanswer
    obtain ⟨hq, haccepts⟩ := List.mem_filter.mp hq
    rw [accepts, Bool.and_eq_true, beq_iff_eq] at haccepts
    exact mem_outstanding.mpr ⟨w, hw, .inr ⟨q, hq, haccepts.1, rfl⟩⟩
  · obtain ⟨w', hw', hr⟩ := mem_outstanding.mp hr
    obtain ⟨w, hw, rfl⟩ := Option.map_eq_some_iff.mp hw'
    rcases hr with hr | ⟨q, hq, -⟩
    · exact mem_outstanding.mpr ⟨w, hw, .inl hr⟩
    · exact (List.not_mem_nil hq).elim

theorem Owes.disable (ho : h.Owes P owed d []) (hin : h.InStep d) :
    (h.disable d).1.Owes P owed' d [] := by
  have hin' := hin.disable
  unfold Highlighter.disable at hin' ⊢
  split
  · rename_i hoff
    exact owes_of_disabled hin hoff (ho.off hoff) ho.edits
  · rename_i hon
    rw [if_neg hon] at hin'
    exact owes_of_disabled hin' rfl rfl fun r hr => (List.not_mem_nil hr).elim

end Highlighter

/-! ### Actions -/

namespace Session

variable {P : Document → ByteRange → Prop} {owed owed' : Nat → Prop} {s : Session E}

/-- The ranges in which an action may change what is known of the text. -/
def renewed (s : Session E) (clock : Clock) (a : Action E) : List ByteRange :=
  let h := s.highlighter
  match a, s.editMade a with
  | .edit _ _, some e =>
    e.newRange :: (h.moveAlong e).parser.invalidated clock (s.stage clock a).session.document
  | .setLanguage _, _ => [Highlighter.wholeText s.document]
  | .enable, _ => if h.isDisabled then [Highlighter.wholeText s.document] else []
  | .idle, _ => if h.reparsePending then h.parser.invalidated clock s.document else []
  | _, _ => []

/-- An action keeps what is owed and adds to it only where it changes something. `owed` is what was
owed before, and `owed'` what is owed when the queries have been made. -/
theorem owes_stage (hP : Placement E P) (hE : E.OrdersDifferences) (hin : s.InStep)
    (ho : s.highlighter.Owes P owed s.document []) (clock : Clock) (a : Action E)
    (hfits : (s.stage clock a).session.document.length < wordSize)
    (howed : ∀ i, owed' i → i < (s.stage clock a).session.document.length ∧
      (s.takenEarly a).any (·.contains i) = false ∧
      (followed (s.editMade a) False owed i ∨
        ∃ r ∈ s.renewed clock a, r.contains i = true))
    (hbusy : a = .idle → s.highlighter.outstanding ≠ [] → ∀ i, owed' i → owed i) :
    (s.stage clock a).session.highlighter.Owes P owed' (s.stage clock a).session.document
      ((s.stage clock a).answers.map Prod.fst) := by
  have kept : ∀ i, (owed i ∨ ∃ r ∈ ([] : List ByteRange), r.contains i = true) → owed i := by
    rintro i (hi | ⟨r, hr, -⟩)
    · exact hi
    · exact (List.not_mem_nil hr).elim
  cases a with
  | edit r text =>
    rcases s.stage_edit clock r text with ⟨e, d, hedit, hmade, hstage⟩ | ⟨hmade, hstage⟩
    · have hdocument : (s.stage clock (.edit r text)).session.document = d := by rw [hstage]; rfl
      simp only [hmade, renewed, hdocument] at howed
      rw [hdocument] at hfits
      rw [hstage]
      refine ho.askChanged hP hE hin hedit hfits clock fun _ i hi => ?_
      obtain ⟨hlt, -, hi⟩ := howed i hi
      exact ⟨hlt, hi⟩
    · rw [hstage] at howed ⊢
      simp only [hmade, renewed] at howed
      exact ho.mono fun i hi => kept i (howed i hi).2.2
  | setLanguage g =>
    obtain ⟨grammar, hp, hcompiled⟩ := s.highlighter.parser.setLanguage_cases g
    simp only [stage, Highlighter.askLanguage]
    split
    · rename_i hoff
      refine Highlighter.owes_of_disabled (h := s.highlighter.load g) (hin.load g hoff) hoff
        (ho.off hoff) fun r hr => ?_
      simp only [Highlighter.load, hp] at hr
      exact (List.not_mem_nil hr).elim
    · rename_i hon
      refine Highlighter.owes_rebuild (h := s.highlighter.load g) hP hE (fun loaded hloaded => ?_)
        hin rfl rfl (Highlighter.isDisabled_of_not hon) clock fun i hi => (howed i hi).1
      refine hcompiled loaded ?_
      simpa only [Highlighter.load, hp] using hloaded
  | enable =>
    simp only [renewed] at howed
    simp only [stage, Highlighter.askEnabled]
    split
    · exact Highlighter.owes_rebuild (h := { s.highlighter with state := .idle }) hP hE
        hin.tracks.compiled hin rfl rfl rfl clock fun i hi => (howed i hi).1
    · rename_i hon
      rw [if_neg hon] at howed
      exact ho.mono fun i hi => kept i (howed i hi).2.2
  | idle =>
    simp only [renewed, takenEarly] at howed
    refine ho.askIdle hP hE hin clock (fun hon i hi => ?_) fun hon hbusy' i hi => ?_
    · obtain ⟨hlt, -, hi⟩ := howed i hi
      refine ⟨hlt, hi.imp_right ?_⟩
      rintro ⟨r, hr, hri⟩
      split at hr
      · rename_i hpending
        exact ⟨hpending, r, hr, hri⟩
      · exact (List.not_mem_nil hr).elim
    · refine ⟨hbusy rfl hbusy' i hi, fun hpending hfree => ?_⟩
      have hearly := (howed i hi).2.1
      rw [hon, hpending, hfree, List.isEmpty_eq_false_iff.mpr hbusy'] at hearly
      exact hearly
  | poll =>
    simp only [renewed] at howed
    simp only [stage] at howed ⊢
    cases hw : s.highlighter.worker with
    | some w =>
      simp only [hw] at howed ⊢
      exact ho.congr rfl rfl rfl (fun _ => by rw [Highlighter.emptied, hw]; rfl) ho.edits
        (Highlighter.outstanding_emptied hw) fun i hi => kept i (howed i hi).2.2
    | none =>
      simp only [hw] at howed ⊢
      exact ho.mono fun i hi => kept i (howed i hi).2.2
  | setTheme theme =>
    simp only [stage, Highlighter.setTheme] at howed ⊢
    split <;>
      exact ho.congr rfl rfl rfl id ho.edits (fun _ hr => hr) fun i hi => kept i (howed i hi).2.2
  | disable => exact ho.disable hin
  | setCursors positions =>
    exact ho.congr rfl rfl rfl id ho.edits (fun _ hr => hr) fun i hi => kept i (howed i hi).2.2
  | setParseTimeout micros =>
    exact ho.congr rfl rfl rfl id ho.edits (fun _ hr => hr) fun i hi => kept i (howed i hi).2.2
  | work m =>
    exact ho.congr rfl rfl rfl (fun hw => by rw [← hw]; exact Option.isSome_map) ho.edits
      (s.highlighter.outstanding_moveWorker clock m) fun i hi => kept i (howed i hi).2.2

end Session

/-! ### Hosts -/

namespace Host

variable {P : Document → ByteRange → Prop} {owed owed' : Nat → Prop} {w : Host E}

/-- A host whose session is in step with its text and accounts for what is owed, with current
answers about to be taken in. -/
structure Working (P : Document → ByteRange → Prop) (owed : Nat → Prop)
    (answers : List (ByteRange × QueryAnswer)) (w : Host E) : Prop where
  inStep : w.session.InStep
  answered : w.session.highlighter.Answered w.session.document answers
  owes : w.session.highlighter.Owes P owed w.session.document (answers.map Prod.fst)

theorem working_opened (config : Config) (theme : Theme) (d : Document)
    (howed : ∀ i, ¬ owed i) : (opened config theme d : Host E).Working P owed [] where
  inStep := Session.inStep_opened config theme d
  answered := Highlighter.answered_nil _ _
  owes := by
    have hnone : (opened config theme d : Host E).session.highlighter.outstanding = [] := by
      simp only [opened, Session.opened, Highlighter.create, Highlighter.outstanding]
      cases config.backgroundQueries <;> rfl
    refine ⟨fun r hr => (List.not_mem_nil hr).elim, fun _ _ hwaits => (by cases hwaits),
      fun r hr => ?_, fun r hr => (List.not_mem_nil hr).elim, fun _ => rfl,
      fun _ _ hwaits => (by cases hwaits), fun _ _ _ i hi => (howed i hi).elim,
      fun _ _ _ i hi => (howed i hi).elim⟩
    rw [List.map_nil, List.nil_append, hnone] at hr
    exact (List.not_mem_nil hr).elim

theorem Working.mono {answers : List (ByteRange × QueryAnswer)} (hw : w.Working P owed answers)
    (hle : ∀ i, owed' i → owed i) : w.Working P owed' answers :=
  ⟨hw.inStep, hw.answered, hw.owes.mono hle⟩

theorem Working.sound {r : ByteRange} {o : QueryAnswer} {rest : List (ByteRange × QueryAnswer)}
    (hP : Placement E P) (hw : w.Working P owed ((r, o) :: rest)) :
    o.Sound w.session.document r :=
  hw.answered.sound (hP.holds (hw.owes.placed r (List.mem_cons_self ..)))

theorem Working.take (hP : Placement E P) {r : ByteRange} {o : QueryAnswer}
    {rest : List (ByteRange × QueryAnswer)} (hw : w.Working P owed ((r, o) :: rest))
    (hpaid : ∀ i, owed' i → owed i ∧ o.covered.contains i = false) :
    (w.take r o).Working P owed' rest where
  inStep := hw.inStep.apply (hw.answered (r, o) (List.mem_cons_self ..)).1 r o
  answered := hw.answered.apply
  owes := hw.owes.apply (hw.sound hP) (hw.answered.rest_placed hP hw.inStep.tracks
    (hw.owes.placed r (List.mem_cons_self ..))) hpaid

theorem Working.settle (hw : w.Working P owed []) (n : Nat) : (w.settle n).Working P owed [] :=
  ⟨hw.inStep.discard n, Highlighter.answered_nil _ _,
    hw.owes.congr rfl rfl rfl id hw.owes.edits (fun _ hr => hr) fun _ hi => hi⟩

/-- In the middle of an action a host owes what it owed before, moved along, and what the action may
have changed. -/
theorem Working.stage (hP : Placement E P) (hE : E.OrdersDifferences) (hw : w.Working P owed [])
    (clock : Clock) (a : Action E)
    (hfits : (w.session.stage clock a).session.document.length < wordSize)
    (howed : ∀ i, owed' i → i < (w.session.stage clock a).session.document.length ∧
      (w.session.takenEarly a).any (·.contains i) = false ∧
      (followed (w.session.editMade a) False owed i ∨
        ∃ r ∈ w.session.renewed clock a, r.contains i = true))
    (hbusy : a = .idle → w.session.highlighter.outstanding ≠ [] → ∀ i, owed' i → owed i) :
    (w.stage clock a).Working P owed' (w.session.stage clock a).answers :=
  ⟨(hw.inStep.stage clock a).session, (hw.inStep.stage clock a).answered,
    Session.owes_stage hP hE hw.inStep hw.owes clock a hfits howed hbusy⟩

/-- Whatever is done, the ranges of a host stay placed. -/
theorem Working.step (hP : Placement E P) (hE : E.OrdersDifferences) (hnone : ∀ i, ¬ owed i)
    (hw : w.Working P owed []) (clock : Clock) (a : Action E)
    (hfits : (w.step clock a).session.document.length < wordSize) :
    (w.step clock a).Working P owed [] := by
  rw [w.step_document] at hfits
  refine step_induction (motive := fun answers w => w.Working P owed answers) ?_ ?_ ?_
  · exact hw.stage hP hE clock a hfits (fun i hi => (hnone i hi).elim)
      fun _ _ i hi => (hnone i hi).elim
  · exact fun w r o rest hw => hw.take hP fun i hi => (hnone i hi).elim
  · exact fun w n hw => hw.settle n

theorem working_run (hP : Placement E P) (hE : E.OrdersDifferences) (config : Config)
    (theme : Theme) (d : Document) {steps : List (Clock × Action E)}
    (hfits : (opened config theme d).Fits steps) :
    ((opened config theme d).run steps).Working P (fun _ => False) [] :=
  run_induction hfits (motive := fun w => w.Working P (fun _ => False) [])
    (working_opened config theme d fun _ => id)
    fun _ clock a _ hfits hw => hw.step hP hE (fun _ => id) clock a hfits

end Host

end LiveHighlight
