import LiveHighlight.Proofs.Highlight.Knowledge
import LiveHighlight.Proofs.Highlight.Mirror

/-! The spans of a session against all captures of its text. A byte whose span differs from what its
parser knows is owed: it lies in a range that is deferred or waits, unless idle work took its range
early, while another query was out. -/

namespace LiveHighlight

open Spans

variable {E : SyntaxEngine}

namespace Session

variable {s : Session E} {clock : Clock} {a : Action E}

theorem stage_hasWorker (s : Session E) (clock : Clock) (a : Action E) :
    (s.stage clock a).session.highlighter.worker.isSome = s.highlighter.worker.isSome := by
  have hframe := s.stage_frame clock a
  generalize hf : (s.stage clock a).session.highlighter.frame = f at hframe
  refine (congrArg Frame.hasWorker hf).trans ?_
  cases hframe <;> rfl

theorem isDisabled_of_stage (hon : (s.stage clock a).session.highlighter.isDisabled = false) :
    s.highlighter.isDisabled = false ∨ s.rebuilds a = true := by
  have hframe := s.stage_frame clock a
  generalize hf : (s.stage clock a).session.highlighter.frame = f at hframe
  have hon : f.isDisabled = false := (congrArg Frame.isDisabled hf).symm.trans hon
  cases hframe with
  | rebuilt _ hrebuilds => exact .inr hrebuilds
  | disabled => cases hon
  | _ => exact .inl hon

theorem wholeText_mem_renewed (hrebuilds : s.rebuilds a = true) :
    Highlighter.wholeText s.document ∈ s.renewed clock a := by
  cases a with
  | setLanguage g => exact List.mem_singleton_self _
  | enable =>
    have hoff : s.highlighter.isDisabled = true := hrebuilds
    simp only [renewed, hoff, if_true]
    exact List.mem_singleton_self _
  | _ => cases hrebuilds

theorem document_of_rebuilds (hrebuilds : s.rebuilds a = true) (clock : Clock) :
    (s.stage clock a).session.document = s.document := by
  cases a with
  | setLanguage g => rfl
  | enable => rfl
  | _ => cases hrebuilds

theorem newRange_mem_renewed (clock : Clock) {e : TextEdit} (hmade : s.editMade a = some e) :
    e.newRange ∈ s.renewed clock a := by
  cases a with
  | edit r text =>
    simp only [renewed, hmade]
    exact List.mem_cons_self ..
  | _ => cases hmade

end Session

namespace Host

variable {found : LoadedGrammar E → List Char → List QueryCapture} {w : Host E}
  {truth truth' : Option (Nat → Option Capture)}

/-- A byte whose span differs from what is known of the captures. What is known says nothing while
an answer has passed its match limit, and a byte counts only as long as its range was not taken
early. -/
def Stale (w : Host E) (truth : Option (Nat → Option Capture)) (i : Nat) : Prop :=
  (w.overflowed = false ∧ w.session.highlighter.isDisabled = false) ∧
    (i < w.session.document.length ∧ w.early i = false) ∧
    ∀ t, truth = some t → captureAt w.session.highlighter.spans i ≠ t i

/-- A host that owes every stale byte, and whose parser knows what these are measured by. -/
structure Fresh (found : LoadedGrammar E → List Char → List QueryCapture)
    (truth : Option (Nat → Option Capture)) (answers : List (ByteRange × QueryAnswer))
    (w : Host E) : Prop where
  knows : w.session.highlighter.parser.Knows found w.session.document truth
  working : w.Working Document.Takes (w.Stale truth) answers
  mirrors : w.Mirrors

theorem fresh_opened (config : Config) (theme : Theme) (d : Document) :
    (opened config theme d : Host E).Fresh found (some fun _ => none) [] where
  knows := .plain rfl
  working := working_opened config theme d fun _ hi => hi.2.2 _ rfl rfl
  mirrors := mirrors_opened config theme d

/-! ### Answers -/

/-- An answer within its match limit says of each byte it covers what all captures say. -/
theorem Working.captureAt_answer (hE : E.Faithful found) {owed : Nat → Prop} {r : ByteRange}
    {o : QueryAnswer} {rest : List (ByteRange × QueryAnswer)}
    (hw : w.Working Document.Takes owed ((r, o) :: rest)) (hexceeded : o.exceeded = false) {i : Nat}
    (hi : o.covered.contains i = true) :
    captureAt o.spans i = w.session.highlighter.parser.flat found w.session.document i := by
  obtain ⟨-, -, hcurrent⟩ := hw.answered (r, o) (List.mem_cons_self ..)
  have hr : w.session.document.Takes r := hw.owes.placed r (List.mem_cons_self ..)
  have hcompiled := hw.inStep.tracks.compiled
  unfold DocumentParser.flat
  simp only at hcurrent
  generalize w.session.highlighter.parser.grammar = grammar at hcurrent hcompiled ⊢
  cases hcurrent with
  | plain => rfl
  | parsed g _ clock =>
    exact LoadedGrammar.captureAt_runFollowing hE (hcompiled g rfl) hr.ordered hexceeded hi

theorem Fresh.take (hE : E.Faithful found) {r : ByteRange} {o : QueryAnswer}
    {rest : List (ByteRange × QueryAnswer)} (hf : w.Fresh found truth ((r, o) :: rest)) :
    (w.take r o).Fresh found truth rest := by
  have hP := placement_takes hE.alignsCaptures
  have hsound := hf.working.sound hP
  obtain ⟨hon, hup, -⟩ := hf.working.answered (r, o) (List.mem_cons_self ..)
  obtain ⟨stats, happly⟩ := w.session.highlighter.apply_fst r o
  have hknows : (w.take r o).session.highlighter.parser.Knows found w.session.document truth := by
    simp only [Host.take, happly]
    exact hf.knows.congr rfl rfl rfl rfl
  refine ⟨hknows, hf.working.take hP fun i hi => ?_, hf.mirrors.take hsound⟩
  obtain ⟨⟨hwithin, -⟩, ⟨hlt, hlate⟩, hdiffers⟩ := hi
  have hwithin : w.overflowed = false ∧ o.exceeded = false := by
    simpa [Host.take] using hwithin
  have htruth := hf.knows.upToDate hup
  have hcapture := hf.mirrors.canonical.captureAt_overwrite hsound.ordered
    hsound.canonical.ordered hsound.within i
  rw [← take_spans w r o] at hcapture
  -- What the answer covers is right, so a byte that is not lies outside.
  have hout : o.covered.contains i = false := by
    refine (Bool.not_eq_true _).mp fun hin => hdiffers _ htruth ?_
    rw [hcapture, if_pos hin]
    exact hf.working.captureAt_answer hE hwithin.2 hin
  rw [hcapture, hout] at hdiffers
  refine ⟨⟨⟨hwithin.1, hon⟩, ⟨hlt, ?_⟩, hdiffers⟩, hout⟩
  simpa [Host.take, hout] using hlate

theorem Fresh.settle (hf : w.Fresh found truth []) (n : Nat) :
    (w.settle n).Fresh found truth [] where
  knows := hf.knows.congr rfl rfl rfl rfl
  working := hf.working.settle n
  mirrors := ⟨hf.mirrors.canonical, hf.mirrors.within, hf.mirrors.off, hf.mirrors.captures⟩

/-! ### Actions -/

/-- What the parser knows in the middle of an action: outside of the renewed ranges what it knew
before, moved along. -/
theorem exists_knows_stage (hE : E.Faithful found) {s : Session E} (hin : s.InStep)
    (hk : s.highlighter.parser.Knows found s.document truth) (clock : Clock) (a : Action E)
    (hfits : (s.stage clock a).session.document.length < wordSize) :
    ∃ truth', (s.stage clock a).session.highlighter.parser.Knows found
        (s.stage clock a).session.document truth' ∧
      (s.highlighter.isDisabled = false →
        (s.stage clock a).session.highlighter.isDisabled = false →
        ∀ i, i < (s.stage clock a).session.document.length →
          (¬ ∃ r ∈ s.renewed clock a, r.contains i = true) →
          ∀ t, truth = some t → ∃ t', truth' = some t' ∧
            t' i = followed (s.editMade a) none t i) ∧
      (a = .idle → s.highlighter.outstanding ≠ [] → truth' = truth) := by
  have kept : ∀ {h : Highlighter E} {t : Nat → Option Capture} {i : Nat},
      h.parser.Knows found s.document truth → truth = some t →
        ∃ t', truth = some t' ∧ t' i = followed none none t i :=
    fun _ ht => ⟨_, ht, rfl⟩
  cases a with
  | edit r text =>
    rcases s.stage_edit clock r text with ⟨e, d, hedit, hmade, hstage⟩ | ⟨hmade, hstage⟩
    · have hdocument : (s.stage clock (.edit r text)).session.document = d := by rw [hstage]; rfl
      have hhighlighter : (s.stage clock (.edit r text)).session.highlighter =
          (s.highlighter.askChanged clock e d).highlighter := by rw [hstage]; rfl
      rw [hdocument] at hfits
      simp only [hdocument, hhighlighter]
      by_cases hoff : s.highlighter.isDisabled = true
      · obtain ⟨truth', hk', -⟩ := DocumentParser.exists_knows_of_blank found (hin.blank hoff).1 d
        refine ⟨truth', ?_, fun hon => (by cases hon.symm.trans hoff), fun hidle => by cases hidle⟩
        rw [Highlighter.askChanged, if_pos hoff]
        exact hk'
      · have hon := Highlighter.isDisabled_of_not hoff
        obtain ⟨truth', hk', htruth⟩ :=
          Highlighter.exists_knows_askChanged hE hin hk hedit hfits hon clock
        refine ⟨truth', hk', fun _ _ i hi hout t ht => ?_, fun hidle => by cases hidle⟩
        rw [hmade]
        refine htruth i hi (fun ⟨r, hr, hri⟩ => hout ⟨r, ?_, hri⟩) t ht
        simp only [Session.renewed, hmade, hdocument]
        exact List.mem_cons_of_mem _ hr
    · rw [hstage, hmade]
      exact ⟨truth, hk, fun _ _ _ _ _ _ ht => kept hk ht, fun hidle => by cases hidle⟩
  | setLanguage g =>
    obtain ⟨grammar, hp, hcompiled⟩ := s.highlighter.parser.setLanguage_cases g
    change ∃ truth', (s.highlighter.askLanguage clock g s.document).highlighter.parser.Knows found
      s.document truth' ∧ _
    by_cases hoff : s.highlighter.isDisabled = true
    · obtain ⟨truth', hk', -⟩ := DocumentParser.exists_knows_of_blank
        (p := (s.highlighter.load g).parser) found (by simp only [Highlighter.load, hp]; rfl)
        s.document
      refine ⟨truth', ?_, fun hon => (by cases hon.symm.trans hoff), fun hidle => by cases hidle⟩
      rw [Highlighter.askLanguage, if_pos hoff]
      exact hk'
    · obtain ⟨truth', hk'⟩ := Highlighter.exists_knows_rebuild (h := s.highlighter.load g)
        (d := s.document) found (fun loaded hloaded => hcompiled loaded (by
          simpa only [Highlighter.load, hp] using hloaded)) clock
      refine ⟨truth', ?_, fun _ _ i hi hout => ?_, fun hidle => by cases hidle⟩
      · rw [Highlighter.askLanguage, if_neg hoff]
        exact hk'
      · exact (hout ⟨_, List.mem_singleton_self _, ByteRange.contains_iff.mpr
          ⟨Nat.zero_le i, hi⟩⟩).elim
  | enable =>
    change ∃ truth', (s.highlighter.askEnabled clock s.document).highlighter.parser.Knows found
      s.document truth' ∧ _
    by_cases hoff : s.highlighter.isDisabled = true
    · obtain ⟨truth', hk'⟩ := Highlighter.exists_knows_rebuild
        (h := { s.highlighter with state := .idle }) (d := s.document) found
        hin.tracks.compiled clock
      refine ⟨truth', ?_, fun hon => (by cases hon.symm.trans hoff), fun hidle => by cases hidle⟩
      rw [Highlighter.askEnabled, if_pos hoff]
      exact hk'
    · rw [Highlighter.askEnabled, if_neg hoff]
      exact ⟨truth, hk, fun _ _ _ _ _ _ ht => kept hk ht, fun hidle => by cases hidle⟩
  | disable =>
    change ∃ truth', (s.highlighter.disable s.document).1.parser.Knows found s.document truth' ∧
      (_ → (s.highlighter.disable s.document).1.isDisabled = false → _) ∧ _
    unfold Highlighter.disable
    split
    · exact ⟨truth, hk, fun _ _ _ _ _ _ ht => kept hk ht, fun hidle => by cases hidle⟩
    · obtain ⟨truth', hk', -⟩ := DocumentParser.exists_knows_of_blank
        (p := s.highlighter.parser.invalidate) found rfl s.document
      exact ⟨truth', hk'.congr rfl rfl rfl rfl, fun _ hon => (by cases hon),
        fun hidle => by cases hidle⟩
  | idle =>
    obtain ⟨truth', hk', htruth, hbusy⟩ := Highlighter.exists_knows_askIdle hE hin hk clock
    refine ⟨truth', hk', fun _ _ i hi hout => htruth i hi fun hpending => ?_, fun _ => hbusy⟩
    simpa only [Session.renewed, Session.editMade, if_pos hpending] using hout
  | poll =>
    simp only [Session.stage]
    cases s.highlighter.worker with
    | some w => exact ⟨truth, hk, fun _ _ _ _ _ _ ht => kept hk ht, fun hidle => by cases hidle⟩
    | none => exact ⟨truth, hk, fun _ _ _ _ _ _ ht => kept hk ht, fun hidle => by cases hidle⟩
  | setTheme theme =>
    refine ⟨truth, ?_, fun _ _ _ _ _ _ ht => kept hk ht, fun hidle => by cases hidle⟩
    change (s.highlighter.setTheme theme s.document).1.parser.Knows found s.document truth
    unfold Highlighter.setTheme
    simp only
    split
    · exact hk
    · exact hk.congr rfl rfl rfl rfl
  | setCursors positions =>
    exact ⟨truth, hk, fun _ _ _ _ _ _ ht => kept hk ht, fun hidle => by cases hidle⟩
  | setParseTimeout micros =>
    exact ⟨truth, hk.congr rfl rfl rfl rfl, fun _ _ _ _ _ _ ht => kept hk ht,
      fun hidle => by cases hidle⟩
  | work m =>
    exact ⟨truth, hk, fun _ _ _ _ _ _ ht => kept hk ht, fun hidle => by cases hidle⟩

/-- What was stale stays so, moved along, outside of the renewed ranges. -/
theorem Stale.of_stage (hm : w.Mirrors) {clock : Clock} {a : Action E}
    (hfits : (w.session.stage clock a).session.document.length < wordSize) {i : Nat}
    (hi : (w.stage clock a).Stale truth' i)
    (hout : ¬ ∃ r ∈ w.session.renewed clock a, r.contains i = true)
    (htruth : w.session.highlighter.isDisabled = false →
      ∀ t, truth = some t → ∃ t', truth' = some t' ∧
        t' i = followed (w.session.editMade a) none t i) :
    followed (w.session.editMade a) False (w.Stale truth) i := by
  obtain ⟨⟨hwithin, hon⟩, ⟨hlt, hlate⟩, hdiffers⟩ := hi
  have hrebuilds : w.session.rebuilds a = false := by
    refine (Bool.not_eq_true _).mp fun hrebuilds => hout ?_
    exact ⟨_, Session.wholeText_mem_renewed hrebuilds, ByteRange.contains_iff.mpr
      ⟨Nat.zero_le i, Session.document_of_rebuilds hrebuilds clock ▸ hlt⟩⟩
  have hwithin : w.overflowed = false := by simpa [Host.stage, hrebuilds] using hwithin
  have hwas : w.session.highlighter.isDisabled = false :=
    (Session.isDisabled_of_stage hon).resolve_right fun h => (by cases h.symm.trans hrebuilds)
  have hlate : followed (w.session.editMade a) false w.early i = false := by
    simp only [Host.stage, Bool.or_eq_false_iff] at hlate
    exact hlate.1
  rcases w.session.stage_document clock a with ⟨e, hmade, hedit⟩ | ⟨hmade, hdocument⟩
  · rw [hmade] at hlate htruth ⊢
    simp only [followed, Option.elim_some] at hlate htruth ⊢
    cases hij : e.origin i with
    | none =>
      exact (hout ⟨_, Session.newRange_mem_renewed clock hmade,
        TextEdit.contains_newRange hij⟩).elim
    | some j =>
      have hj : j < w.session.document.length :=
        (hedit.sound hfits).origin_lt hij (hedit.length.2.2.2 ▸ hlt)
      rw [TextEdit.splice_of_origin hij] at hlate ⊢
      refine ⟨⟨hwithin, hwas⟩, ⟨hj, hlate⟩, fun t ht => ?_⟩
      obtain ⟨t', ht', heq⟩ := htruth hwas t ht
      have hne := hdiffers t' ht'
      rw [(hm.edited clock hmade hedit hfits).2.2 i, heq, TextEdit.splice_of_origin hij,
        TextEdit.splice_of_origin hij] at hne
      exact hne
  · rw [hmade] at hlate htruth ⊢
    refine ⟨⟨hwithin, hwas⟩, ⟨hdocument ▸ hlt, hlate⟩, fun t ht => ?_⟩
    obtain ⟨t', ht', heq⟩ := htruth hwas t ht
    have hne := hdiffers t' ht'
    have hsame := (w.stage_spans_unedited clock hmade).resolve_right fun hnone =>
      (by cases hon.symm.trans hnone.2.2)
    rw [hsame, heq] at hne
    exact hne

theorem Fresh.stage (hE : E.Faithful found) (hf : w.Fresh found truth []) (clock : Clock)
    (a : Action E) (hfits : (w.session.stage clock a).session.document.length < wordSize) :
    ∃ truth', (w.stage clock a).Fresh found truth' (w.session.stage clock a).answers := by
  obtain ⟨truth', hk', htruth, hbusy⟩ :=
    exists_knows_stage hE hf.working.inStep hf.knows clock a hfits
  refine ⟨truth', hk', hf.working.stage (placement_takes hE.alignsCaptures) hE.ordersDifferences
    clock a hfits (fun i hi => ?_) fun ha hout i hi => ?_, hf.mirrors.stage clock a hfits⟩
  · have hlate : (w.session.takenEarly a).any (·.contains i) = false := by
      have hlate := hi.2.1.2
      simp only [Host.stage, Bool.or_eq_false_iff] at hlate
      exact hlate.2
    refine ⟨hi.2.1.1, hlate, ?_⟩
    by_cases hrenewed : ∃ r ∈ w.session.renewed clock a, r.contains i = true
    · exact .inr hrenewed
    · exact .inl (hi.of_stage hf.mirrors hfits hrenewed fun hon =>
        htruth hon hi.1.2 i hi.2.1.1 hrenewed)
  · subst ha
    obtain ⟨⟨hwithin, hon⟩, ⟨hlt, hlate⟩, hdiffers⟩ := hi
    have hsame := (w.stage_spans_unedited clock (a := .idle) rfl).resolve_right fun hnone =>
      (by cases hon.symm.trans hnone.2.2)
    have hwas := (Session.isDisabled_of_stage (a := .idle) hon).resolve_right (fun h => by cases h)
    have hlate : w.early i = false := by
      simp only [Host.stage, Bool.or_eq_false_iff] at hlate
      exact hlate.1
    rw [hsame, hbusy rfl hout] at hdiffers
    exact ⟨⟨hwithin, hwas⟩, ⟨hlt, hlate⟩, hdiffers⟩

theorem Fresh.step (hE : E.Faithful found) (hf : w.Fresh found truth []) (clock : Clock)
    (a : Action E) (hfits : (w.step clock a).session.document.length < wordSize) :
    ∃ truth', (w.step clock a).Fresh found truth' [] := by
  rw [w.step_document] at hfits
  refine step_induction (motive := fun answers w => ∃ truth, w.Fresh found truth answers)
    (hf.stage hE clock a hfits) ?_ ?_
  · rintro w r o rest ⟨truth, hf⟩
    exact ⟨truth, hf.take hE⟩
  · rintro w n ⟨truth, hf⟩
    exact ⟨truth, hf.settle n⟩

theorem step_inline (hworker : w.session.highlighter.worker.isSome = false)
    (hearly : ∀ i, w.early i = false) (clock : Clock) (a : Action E) :
    (w.step clock a).session.highlighter.worker.isSome = false ∧
      ∀ i, (w.step clock a).early i = false := by
  refine step_induction (motive := fun _ w => w.session.highlighter.worker.isSome = false ∧
    ∀ i, w.early i = false) ⟨?_, fun i => ?_⟩ ?_ ?_
  · exact (Session.stage_hasWorker _ _ _).trans hworker
  · have hnone : w.session.takenEarly a = none := by
      rw [Option.isSome_eq_false_iff, Option.isNone_iff_eq_none] at hworker
      cases a with
      | idle =>
        simp only [Session.takenEarly, Highlighter.outstanding, hworker, List.isEmpty_nil,
          Bool.or_true, if_true]
      | _ => rfl
    have hfollowed : followed (w.session.editMade a) false w.early i = false := by
      cases w.session.editMade a with
      | none => exact hearly i
      | some e =>
        simp only [followed, Option.elim_some, TextEdit.splice]
        cases e.origin i with
        | none => rfl
        | some j => exact hearly j
    simp only [Host.stage, hnone, hfollowed]
    rfl
  · rintro w r o rest ⟨hworker, hearly⟩
    refine ⟨?_, fun i => ?_⟩
    · rw [← hworker]
      exact congrArg Option.isSome (Highlighter.apply_worker r o)
    · simp only [Host.take, hearly]
      rfl
  · exact fun w n h => h

theorem early_of_inline {config : Config} (theme : Theme) (d : Document)
    (hinline : config.backgroundQueries = false) {steps : List (Clock × Action E)}
    (hfits : (opened config theme d).Fits steps) (i : Nat) :
    ((opened config theme d).run steps).early i = false := by
  have hrun := run_induction hfits
    (motive := fun w => w.session.highlighter.worker.isSome = false ∧ ∀ i, w.early i = false)
    ⟨by simp [opened, Session.opened, Highlighter.create, hinline], fun _ => rfl⟩
    fun w clock a _ _ ⟨hworker, hearly⟩ => step_inline hworker hearly clock a
  exact hrun.2 i

end Host

/-- The spans of a text highlighted from scratch: all its captures, laid on top of each other. -/
def DocumentParser.flattened (found : LoadedGrammar E → List Char → List QueryCapture)
    (p : DocumentParser E) (d : Document) : List Span :=
  p.grammar.elim [] fun g =>
    overlay ((found g d.chars).filterMap g.query.raw) (Highlighter.wholeText d)

theorem DocumentParser.canonical_flattened
    (found : LoadedGrammar E → List Char → List QueryCapture) (p : DocumentParser E)
    (d : Document) :
    Canonical (p.flattened found d) ∧ Within (Highlighter.wholeText d) (p.flattened found d) := by
  unfold flattened
  cases p.grammar with
  | none => exact ⟨.nil, fun _ ht => (List.not_mem_nil ht).elim⟩
  | some g => exact ⟨canonical_overlay _ _, within_overlay _ _⟩

theorem DocumentParser.captureAt_flattened
    {found : LoadedGrammar E → List Char → List QueryCapture} (hE : E.Faithful found)
    {p : DocumentParser E} {d : Document} (htracks : p.Tracks d) {i : Nat} (hi : i < d.length) :
    captureAt (p.flattened found d) i = p.flat found d i := by
  unfold flattened flat
  cases hg : p.grammar with
  | none => rfl
  | some g =>
    refine captureAt_overlay (fun a ha b hb => ?_) ⟨Nat.zero_le i, hi⟩
    obtain ⟨ca, hca, hra⟩ := List.mem_filterMap.mp ha
    obtain ⟨cb, hcb, hrb⟩ := List.mem_filterMap.mp hb
    rw [CompiledQuery.raw_range hra, CompiledQuery.raw_range hrb]
    exact hE.laminar g d.chars (htracks.compiled g hg) ca hca cb hcb

namespace Host

variable {found : LoadedGrammar E → List Char → List QueryCapture}

/-- Incremental highlighting against highlighting from scratch. In every enabled state that a run
reaches without pending work, where no answer since the last parse of the whole text passed its
match limit, every byte has the capture that highlighting from scratch gives it, but for bytes of
ranges that idle work took while another query of the same generation was out. The spans are those
of highlighting from scratch exactly if these bytes have their captures too, and always if queries
are not made in the background. -/
theorem spans_when_quiet (hE : E.Faithful found) (config : Config) (theme : Theme) (d₀ : Document)
    (steps : List (Clock × Action E)) (hfits : (opened config theme d₀).Fits steps) :
    let w := (opened config theme d₀).run steps
    let h := w.session.highlighter
    let d := w.session.document
    w.overflowed = false → h.isDisabled = false → h.hasPendingWork = false →
      (∀ i, i < d.length → w.early i = false →
        captureAt h.spans i = captureAt (h.parser.flattened found d) i) ∧
      (h.spans = h.parser.flattened found d ↔ ∀ i, i < d.length → w.early i = true →
        captureAt h.spans i = captureAt (h.parser.flattened found d) i) ∧
      (config.backgroundQueries = false → h.spans = h.parser.flattened found d) := by
  intro w h d hwithin hon hquiet
  obtain ⟨truth, hf⟩ : ∃ truth, w.Fresh found truth [] :=
    run_induction hfits (motive := fun w => ∃ truth, w.Fresh found truth [])
      ⟨_, fresh_opened config theme d₀⟩ fun w clock a _ hfits ⟨truth, hf⟩ =>
        hf.step hE clock a hfits
  have hup : h.parser.UpToDate := by
    refine hf.working.inStep.caughtUp hon ?_
    simp only [Highlighter.hasPendingWork, Bool.or_eq_false_iff] at hquiet
    exact hquiet.1.1
  have htruth := hf.knows.upToDate hup
  have hfresh : ∀ i, i < d.length → w.early i = false →
      captureAt h.spans i = captureAt (h.parser.flattened found d) i := by
    intro i hi hlate
    refine Decidable.byContradiction fun hne => ?_
    refine hf.working.owes.quiet strict_takes hon hquiet i
      ⟨⟨hwithin, hon⟩, ⟨hi, hlate⟩, fun t ht => ?_⟩
    cases htruth.symm.trans ht
    rw [DocumentParser.captureAt_flattened hE hf.working.inStep.tracks hi] at hne
    exact hne
  have heq : (∀ i, i < d.length → w.early i = true →
      captureAt h.spans i = captureAt (h.parser.flattened found d) i) →
      h.spans = h.parser.flattened found d := by
    intro hearly
    obtain ⟨hcanonical, hinside⟩ := h.parser.canonical_flattened found d
    refine hf.mirrors.canonical.ext hcanonical fun i => ?_
    by_cases hi : i < d.length
    · cases hlate : w.early i with
      | false => exact hfresh i hi hlate
      | true => exact hearly i hi hlate
    · have hpast : ¬ ((Highlighter.wholeText d).start ≤ i ∧ i < (Highlighter.wholeText d).stop) :=
        fun hin => hi hin.2
      rw [hf.mirrors.within.captureAt_eq_none hpast, hinside.captureAt_eq_none hpast]
  refine ⟨hfresh, ⟨fun hsame i _ _ => by rw [hsame], heq⟩, fun hinline => heq fun i _ hearly => ?_⟩
  cases (early_of_inline theme d₀ hinline hfits i).symm.trans hearly

theorem spans_when_quiet_pair :
    let w := (opened {} (.plain "plain") Commas.pair).run Commas.pairSteps
    w.session.highlighter.spans =
        w.session.highlighter.parser.flattened Commas.found w.session.document ∧
      w.session.highlighter.spans = [⟨⟨3, 4⟩, .punctuationDelimiter⟩] := by
  have hquiet := spans_when_quiet Commas.faithful {} (.plain "plain") Commas.pair Commas.pairSteps
    Commas.pair_fits (by decide +kernel) (by decide +kernel) (by decide +kernel)
  exact ⟨hquiet.2.2 rfl, by decide +kernel⟩

end Host

end LiveHighlight
