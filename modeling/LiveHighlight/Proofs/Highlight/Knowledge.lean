import LiveHighlight.Proofs.Highlight.Coverage

/-! What a parser knows of the captures of its text: what they were when it was parsed last, moved
along the edits made since. A parse that ends brings this up to date, and what it reports as changed
lies around every byte for which it was not. -/

namespace LiveHighlight

variable {E : SyntaxEngine}

namespace DocumentParser

/-- The capture that a byte has by all captures of the text; none without a grammar. -/
def flat (found : LoadedGrammar E → List Char → List QueryCapture) (p : DocumentParser E)
    (d : Document) (i : Nat) : Option Capture :=
  p.grammar.bind fun g => g.flat found d i

/-- What a parser knows of the captures of its text. Of a text that was not parsed it knows
nothing. -/
inductive Knows (found : LoadedGrammar E → List Char → List QueryCapture) (p : DocumentParser E)
    (d : Document) : Option (Nat → Option Capture) → Prop
  | plain (hg : p.grammar = none) : Knows found p d (some fun _ => none)
  | unparsed {g : LoadedGrammar E} (hg : p.grammar = some g) (htree : p.tree = none) :
      Knows found p d none
  | parsed {g : LoadedGrammar E} {d₀ : Document} {es : List TextEdit} (hg : p.grammar = some g)
      (htrail : Document.Trail d₀ es d)
      (htree : p.tree = some (SyntaxEngine.reshapeAll (E.parse g.language d₀.chars) es))
      (hedits : p.pendingEdits = TextEdit.insertedRanges es) (hclean : p.dirty = false → es = []) :
      Knows found p d (some (TextEdit.spliceAll es none (g.flat found d₀)))

variable {found : LoadedGrammar E → List Char → List QueryCapture} {p p' : DocumentParser E}
  {d d' : Document} {truth : Option (Nat → Option Capture)}

theorem Knows.congr (hk : p.Knows found d truth) (hgrammar : p'.grammar = p.grammar)
    (htree : p'.tree = p.tree) (hedits : p'.pendingEdits = p.pendingEdits)
    (hdirty : p'.dirty = p.dirty) : p'.Knows found d truth := by
  cases hk with
  | plain hg => exact .plain (hgrammar.trans hg)
  | unparsed hg hnone => exact .unparsed (hgrammar.trans hg) (htree.trans hnone)
  | parsed hg htrail hsome hinserted hclean =>
    exact .parsed (hgrammar.trans hg) htrail (htree.trans hsome) (hedits.trans hinserted)
      fun h => hclean (hdirty ▸ h)

theorem Knows.upToDate (hk : p.Knows found d truth) (hup : p.UpToDate) :
    truth = some (p.flat found d) := by
  cases hk with
  | plain hg =>
    refine congrArg some (funext fun i => ?_)
    rw [flat, hg]
    rfl
  | unparsed hg htree =>
    have hsome := (hup (by rw [hg]; rfl)).1
    rw [htree] at hsome
    cases hsome
  | parsed hg htrail htree hedits hclean =>
    obtain rfl := hclean (hup (by rw [hg]; rfl)).2
    obtain rfl := htrail.eq_of_nil
    refine congrArg some (funext fun i => ?_)
    rw [flat, hg]
    rfl

/-- A parser without a tree knows nothing, if it has a grammar. -/
theorem exists_knows_of_blank (found : LoadedGrammar E → List Char → List QueryCapture)
    (htree : p.tree = none) (d : Document) :
    ∃ truth, p.Knows found d truth ∧ ∀ t, truth = some t → t = fun _ => none := by
  cases hg : p.grammar with
  | none => exact ⟨_, .plain hg, fun t ht => (Option.some.inj ht).symm⟩
  | some g => exact ⟨none, .unparsed hg htree, fun _ ht => by cases ht⟩

theorem Knows.applyEdit (hk : p.Knows found d truth) {e : TextEdit} (hedit : d.Edits e d')
    (hfits : d'.length < wordSize) :
    (p.applyEdit e).Knows found d' (truth.map fun t => e.splice none t) := by
  unfold DocumentParser.applyEdit
  cases hk with
  | plain hg =>
    have hblank : e.splice none (fun _ => (none : Option Capture)) = fun _ => none := by
      funext i
      rw [TextEdit.splice]
      cases e.origin i <;> rfl
    rw [if_pos (by rw [hg]; rfl), Option.map_some, hblank]
    exact .plain hg
  | unparsed hg htree =>
    rw [if_neg (by rw [hg]; simp)]
    exact .unparsed hg (by rw [htree]; rfl)
  | @parsed g d₀ es hg htrail htree hedits hclean =>
    rw [if_neg (by rw [hg]; simp), Option.map_some, ← TextEdit.spliceAll_concat]
    refine .parsed hg (htrail.edit hedit hfits) ?_ ?_ fun hdirty => ?_
    · rw [SyntaxEngine.reshapeAll_concat, htree]
      rfl
    · rw [TextEdit.insertedRanges_concat, hedits]
    · simp [htree] at hdirty

theorem Knows.of_error (hk : p.Knows found d truth) {failure : HighlightFailure}
    (h : p.Reparsed d (p', .error failure)) : p'.Knows found d truth := by
  cases h
  exact hk.congr rfl rfl rfl rfl

theorem Reparsed.knows {ranges : List ByteRange} (h : p.Reparsed d (p', .ok ranges)) :
    p'.Knows found d (some (p'.flat found d)) := by
  cases h with
  | plain hg =>
    have hflat : flat found { p with dirty := false, pendingEdits := [] } d = fun _ => none := by
      funext i
      rw [flat, hg]
      rfl
    rw [hflat]
    exact .plain hg
  | @parsed g hg stats =>
    have hknown : Knows found { p with
        tree := some (E.parse g.language d.chars)
        dirty := false
        pendingEdits := []
        paused := none
        stats } d (some (TextEdit.spliceAll [] none (g.flat found d))) :=
      .parsed hg (.start d) rfl rfl fun _ => rfl
    have hflat : flat found { p with
        tree := some (E.parse g.language d.chars)
        dirty := false
        pendingEdits := []
        paused := none
        stats } d = g.flat found d := by
      funext i
      rw [flat, hg]
      rfl
    rw [hflat]
    exact hknown

/-- Around every byte for which a parser did not know what it knows after a parse, it reports a
change. -/
theorem Knows.invalidated (hE : E.Faithful found) (hk : p.Knows found d truth)
    (htracks : p.Tracks d) {ranges : List ByteRange} (h : p.Reparsed d (p', .ok ranges)) {i : Nat}
    (hi : i < d.length) (hnew : ∀ t, truth = some t → p'.flat found d i ≠ t i) :
    ∃ r ∈ ranges, r.contains i = true := by
  cases h with
  | plain hg =>
    cases hk with
    | plain => exact (hnew _ rfl (by rw [flat, hg]; rfl)).elim
    | unparsed hg' => cases hg.symm.trans hg'
    | parsed hg' => cases hg.symm.trans hg'
  | @parsed g hg stats =>
    cases hk with
    | plain hg' => cases hg.symm.trans hg'
    | unparsed hg' htree =>
      refine ⟨⟨0, d.length⟩, List.mem_append_left _ ?_, ?_⟩
      · rw [htree]
        exact List.mem_singleton_self _
      · exact ByteRange.contains_iff.mpr ⟨Nat.zero_le i, hi⟩
    | @parsed g' d₀ es hg' htrail htree hedits hclean =>
      cases hg.symm.trans hg'
      obtain ⟨r, hr, hri⟩ := hE.reported g d₀ es d (htracks.compiled g hg) htrail i hi
        (by simpa [flat, hg] using hnew _ rfl)
      refine ⟨r, ?_, hri⟩
      rw [htree, hedits]
      exact hr

end DocumentParser

namespace Highlighter

variable {found : LoadedGrammar E → List Char → List QueryCapture} {h : Highlighter E}
  {d d' : Document} {truth : Option (Nat → Option Capture)}

theorem knows_ask (hk : h.parser.Knows found d truth) (htracks : h.parser.Tracks d)
    (hup : h.parser.UpToDate) (clock : Clock) (r : ByteRange) :
    (h.ask clock r d).highlighter.parser.Knows found d truth := by
  have hasked := h.asked htracks hup clock r
  generalize h.ask clock r d = a at hasked ⊢
  cases hasked <;> exact hk.congr rfl rfl rfl rfl

/-- After a parse something is known of the text, parsed or not. -/
theorem exists_knows_rebuild (found : LoadedGrammar E → List Char → List QueryCapture)
    (hcompiled : ∀ g, h.parser.grammar = some g → g.Compiled)
    (clock : Clock) :
    ∃ truth, (h.rebuild clock d).highlighter.parser.Knows found d truth := by
  have htracks : h.parser.invalidate.Tracks d := .of_blank hcompiled rfl rfl
  have hreparsed := htracks.reparsed clock
  obtain ⟨truth, hk, -⟩ :=
    DocumentParser.exists_knows_of_blank (p := h.parser.invalidate) found rfl d
  unfold rebuild
  simp only [startOver]
  generalize h.parser.invalidate.reparse clock d = result at hreparsed ⊢
  obtain ⟨p, parsed⟩ := result
  cases parsed with
  | ok ranges =>
    exact ⟨_, knows_ask (h := { h.startOver d with parser := p }) hreparsed.knows
      (hreparsed.tracks htracks) hreparsed.upToDate clock (wholeText d)⟩
  | error failure => exact ⟨truth, hk.of_error hreparsed⟩

/-- Outside of where an edit or the parse after it changed something, what is known is what was
known, moved along. -/
theorem exists_knows_askChanged (hE : E.Faithful found) (hin : h.InStep d)
    (hk : h.parser.Knows found d truth) {e : TextEdit} (hedit : d.Edits e d')
    (hfits : d'.length < wordSize) (hon : h.isDisabled = false) (clock : Clock) :
    ∃ truth', (h.askChanged clock e d').highlighter.parser.Knows found d' truth' ∧
      ∀ i, i < d'.length → (¬ ∃ r ∈ (h.moveAlong e).parser.invalidated clock d',
          r.contains i = true) →
        ∀ t, truth = some t → ∃ t', truth' = some t' ∧ t' i = e.splice none t i := by
  have htracks : (h.moveAlong e).parser.Tracks d' := hin.tracks.applyEdit e
  have hmoved : (h.moveAlong e).parser.Knows found d' (truth.map fun t => e.splice none t) :=
    hk.applyEdit hedit hfits
  have hreparsed := htracks.reparsed clock
  unfold askChanged
  rw [if_neg (by rw [hon]; simp)]
  simp only [DocumentParser.invalidated]
  generalize (h.moveAlong e).parser.reparse clock d' = result at hreparsed ⊢
  obtain ⟨p, parsed⟩ := result
  cases parsed with
  | ok ranges =>
    refine ⟨_, knows_ask (h := { h.moveAlong e with parser := p }) hreparsed.knows
      (hreparsed.tracks htracks) hreparsed.upToDate clock _, fun i hi hout t ht => ?_⟩
    refine ⟨_, rfl, Decidable.byContradiction fun hne => hout ?_⟩
    refine hmoved.invalidated hE htracks hreparsed hi fun t' ht' => ?_
    rw [ht] at ht'
    cases ht'
    exact hne
  | error failure =>
    refine ⟨_, hmoved.of_error hreparsed, fun i _ _ t ht => ?_⟩
    rw [ht]
    exact ⟨_, rfl, rfl⟩

/-- Outside of where a parse changed something, what is known stays; all of it does if the worker
has a job or a result of the present generation. -/
theorem exists_knows_askIdle (hE : E.Faithful found) (hin : h.InStep d)
    (hk : h.parser.Knows found d truth) (clock : Clock) :
    ∃ truth', (h.askIdle clock d).highlighter.parser.Knows found d truth' ∧
      (∀ i, i < d.length → (h.reparsePending = true →
          ¬ ∃ r ∈ h.parser.invalidated clock d, r.contains i = true) →
        ∀ t, truth = some t → ∃ t', truth' = some t' ∧ t' i = t i) ∧
      (h.outstanding ≠ [] → truth' = truth) := by
  have hsame : h.parser.Knows found d truth → ∃ truth', h.parser.Knows found d truth' ∧
      (∀ i, i < d.length → (h.reparsePending = true →
          ¬ ∃ r ∈ h.parser.invalidated clock d, r.contains i = true) →
        ∀ t, truth = some t → ∃ t', truth' = some t' ∧ t' i = t i) ∧
      (h.outstanding ≠ [] → truth' = truth) :=
    fun hk => ⟨truth, hk, fun _ _ _ t ht => ⟨t, ht, rfl⟩, fun _ => rfl⟩
  unfold askIdle
  split
  · exact hsame hk
  · rename_i hon
    split
    · rename_i hpending
      have hreparsed := hin.tracks.reparsed clock
      simp only [DocumentParser.invalidated]
      generalize h.parser.reparse clock d = result at hreparsed ⊢
      obtain ⟨p, parsed⟩ := result
      cases parsed with
      | ok ranges =>
        refine ⟨_, knows_ask (h := { h with parser := p, reparsePending := false })
          hreparsed.knows (hreparsed.tracks hin.tracks) hreparsed.upToDate clock _,
          fun i hi hout t ht => ⟨_, rfl, ?_⟩, fun hbusy => ?_⟩
        · refine Decidable.byContradiction fun hne => hout hpending ?_
          refine hk.invalidated hE hin.tracks hreparsed hi fun t' ht' => ?_
          cases ht.symm.trans ht'
          exact hne
        · obtain ⟨r, hr⟩ := List.exists_mem_of_ne_nil _ hbusy
          obtain ⟨g, hparsed⟩ := hin.parsed_of_outstanding hr
          have hup : h.parser.UpToDate := fun _ =>
            ⟨Option.isSome_of_eq_some hparsed.tree, hparsed.clean⟩
          rw [hk.upToDate hup]
          refine congrArg some (funext fun i => ?_)
          rw [DocumentParser.flat, DocumentParser.flat, hreparsed.grammar]
      | error failure =>
        exact ⟨truth, hk.of_error hreparsed, fun _ _ _ t ht => ⟨t, ht, rfl⟩, fun _ => rfl⟩
    · rename_i hpending
      split
      · exact hsame hk
      · split
        · exact hsame hk
        · rename_i next others _
          have hup := hin.caughtUp (isDisabled_of_not hon) (by simpa using hpending)
          exact ⟨truth, knows_ask (h := { h with deferred := others }) hk hin.tracks hup clock next,
            fun _ _ _ t ht => ⟨t, ht, rfl⟩, fun _ => rfl⟩

end Highlighter

end LiveHighlight
