import LiveHighlight.Proofs.Highlight.Commas
import LiveHighlight.Proofs.Highlight.Coverage
import LiveHighlight.Proofs.Highlight.Extent
import LiveHighlight.Proofs.Highlight.Frame

/-! What a host shows of captures is what the spans of its session say, after every action of every
run. The invariant also keeps the spans canonical and inside the text. -/

namespace LiveHighlight

open Spans

variable {E : SyntaxEngine}

namespace Host

variable {w : Host E} {r : ByteRange} {o : QueryAnswer}

/-- A host that shows for every byte of the text the capture that the spans give it. -/
structure Mirrors (w : Host E) : Prop where
  canonical : Canonical w.session.highlighter.spans
  within : Within (Highlighter.wholeText w.session.document) w.session.highlighter.spans
  off : w.session.highlighter.isDisabled = true → w.session.highlighter.spans = []
  captures : ∀ i, i < w.session.document.length →
    w.display.captures i = captureAt w.session.highlighter.spans i

theorem take_spans (w : Host E) (r : ByteRange) (o : QueryAnswer) :
    (w.take r o).session.highlighter.spans =
      overwrite w.session.highlighter.spans o.covered o.spans :=
  congrArg Frame.spans (w.session.highlighter.frame_apply r o)

/-- As an answer is taken in, a byte is painted by its capture, or stays as it was; it stays only if
its capture does and if the answer does not cover it unpainted. -/
theorem Mirrors.take_byte (hm : w.Mirrors) (hsound : o.Sound w.session.document r) (i : Nat) :
    let c := captureAt (w.take r o).session.highlighter.spans i
    (w.take r o).display.shown i =
        (c, some (w.session.highlighter.theme.attributesFor c)) ∨
      (w.take r o).display.shown i = w.display.shown i ∧
        c = captureAt w.session.highlighter.spans i ∧
        ¬ (o.covered.contains i = true ∧
          w.session.highlighter.unpainted.any (·.contains i) = true) := by
  have hcanonical := hm.canonical.overwrite hsound.ordered hsound.canonical.ordered hsound.within
  have hcapture :=
    hm.canonical.captureAt_overwrite hsound.ordered hsound.canonical.ordered hsound.within i
  have hdisplay : (w.take r o).display =
      w.display.receive ((w.session.highlighter.repaintedBy o).map (Repaint.ofSpans
        w.session.highlighter.theme
        (overwrite w.session.highlighter.spans o.covered o.spans))).toList :=
    congrArg w.display.receive (w.session.highlighter.apply_updates r o)
  rw [take_spans, hdisplay]
  have hhugging :=
    Highlighter.hugging_repaintedBy hm.canonical hsound.canonical hsound.ordered
  cases hq : w.session.highlighter.repaintedBy o with
  | some q =>
    have hhugs : q.Hugs _ _ := hq ▸ hhugging
    rw [Option.map_some, Option.toList_some, Display.shown_receive_ofSpans hcanonical hhugs.ordered]
    split
    · exact .inl rfl
    · rename_i hout
      have hkept : ¬ w.session.highlighter.Wants o i := fun hwant => hout (hhugs.around i hwant)
      refine .inr ⟨rfl, ?_, fun hboth => hkept ⟨hboth.1, .inr hboth.2⟩⟩
      rw [hcapture]
      split
      · rename_i hi
        exact Decidable.byContradiction fun hne => hkept ⟨hi, .inl fun heq => hne heq.symm⟩
      · rfl
  | none =>
    rw [hq] at hhugging
    have hkept := hhugging.1 i
    refine .inr ⟨rfl, ?_, fun hboth => hkept ⟨hboth.1, .inr hboth.2⟩⟩
    rw [hcapture]
    split
    · rename_i hi
      exact Decidable.byContradiction fun hne => hkept ⟨hi, .inl fun heq => hne heq.symm⟩
    · rfl

theorem Mirrors.take (hm : w.Mirrors) (hsound : o.Sound w.session.document r) :
    (w.take r o).Mirrors where
  canonical := by
    rw [take_spans]
    exact hm.canonical.overwrite hsound.ordered hsound.canonical.ordered hsound.within
  within := by
    rw [take_spans]
    refine hm.within.overwrite hm.canonical o.covered (hsound.within.mono ?_ ?_)
    · exact Nat.zero_le _
    · exact hsound.stop
  off hoff := by
    have hon := congrArg Frame.isDisabled (w.session.highlighter.frame_apply r o)
    cases hon.symm.trans hoff
  captures i hi := by
    rcases hm.take_byte hsound i with hshown | ⟨hshown, hsame, -⟩
    · exact congrArg Prod.fst hshown
    · rw [hsame]
      exact (congrArg Prod.fst hshown).trans (hm.captures i hi)

/-! ### Actions -/

/-- What an action without an edit shows before it takes in answers. -/
theorem stage_shown_unedited (clock : Clock) {a : Action E} (hmade : w.session.editMade a = none)
    (hc : Canonical (w.stage clock a).session.highlighter.spans) {i : Nat}
    (hi : i < w.session.document.length) :
    let h := (w.stage clock a).session.highlighter
    (w.stage clock a).display.shown i =
      if w.session.repaintsAll a then
        (captureAt h.spans i, some (h.theme.attributesFor (captureAt h.spans i)))
      else w.display.shown i := by
  have hdisplay : (w.stage clock a).display =
      w.display.receive (w.session.stage clock a).sent := by
    rw [stage, hmade]
    rfl
  simp only
  rw [hdisplay, Session.stage_sent]
  split
  · have hpaint := Display.shown_receive_ofSpans hc
      (r := Highlighter.wholeText w.session.document) (Nat.zero_le _)
      (w.stage clock a).session.highlighter.theme w.display i
    exact hpaint.trans (if_pos (ByteRange.contains_iff.mpr ⟨Nat.zero_le i, hi⟩))
  · rfl

theorem stage_shown_edited (clock : Clock) {a : Action E} {e : TextEdit}
    (hmade : w.session.editMade a = some e) (i : Nat) :
    (w.stage clock a).display.shown i = e.splice (none, none) w.display.shown i := by
  have hdisplay : (w.stage clock a).display =
      (w.display.follow e).receive (w.session.stage clock a).sent := by
    rw [stage, hmade]
    rfl
  rw [hdisplay, Session.stage_sent, (Session.quiet_of_editMade hmade).2]
  exact Display.shown_follow w.display e i

/-- What the spans say after an edit: what they said, moved along. -/
theorem Mirrors.edited (hm : w.Mirrors) (clock : Clock) {a : Action E} {e : TextEdit}
    (hmade : w.session.editMade a = some e) {d : Document} (hedit : w.session.document.Edits e d)
    (hfits : d.length < wordSize) :
    let spans := (w.stage clock a).session.highlighter.spans
    Canonical spans ∧ Within (Highlighter.wholeText d) spans ∧
      ∀ i, captureAt spans i = e.splice none (captureAt w.session.highlighter.spans) i := by
  have he := hedit.sound hfits
  have hframe := w.session.stage_frame clock a
  generalize hf : (w.session.stage clock a).session.highlighter.frame = f at hframe
  have hspans : (w.stage clock a).session.highlighter.spans = f.spans := congrArg Frame.spans hf
  simp only [hspans]
  cases hframe with
  | kept hnone => cases hnone.symm.trans hmade
  | rebuilt hnone => cases hnone.symm.trans hmade
  | themed ha => cases (ha ▸ hmade : w.session.editMade (.setTheme _) = some e)
  | disabled ha => cases (ha ▸ hmade : w.session.editMade .disable = some e)
  | ignored _ hoff =>
    simp only [Highlighter.frame, hm.off hoff]
    refine ⟨.nil, fun _ ht => (List.not_mem_nil ht).elim, fun i => ?_⟩
    rw [TextEdit.splice]
    cases e.origin i <;> rfl
  | @edited e' hmade' =>
    cases hmade.symm.trans hmade'
    refine ⟨hm.canonical.carry he hm.within, ?_, hm.canonical.captureAt_carry he hm.within⟩
    have hwithin := hm.canonical.within_carry he hm.within
    rwa [← hedit.length.2.2.2] at hwithin

/-- What an action without an edit leaves of the spans: all, or nothing as it turns highlighting
off. -/
theorem stage_spans_unedited (w : Host E) (clock : Clock) {a : Action E}
    (hmade : w.session.editMade a = none) :
    (w.stage clock a).session.highlighter.spans = w.session.highlighter.spans ∨
      (w.stage clock a).session.highlighter.spans = [] ∧ w.session.repaintsAll a = true ∧
        (w.stage clock a).session.highlighter.isDisabled = true := by
  have hframe := w.session.stage_frame clock a
  generalize hf : (w.session.stage clock a).session.highlighter.frame = f at hframe
  have hspans : (w.stage clock a).session.highlighter.spans = f.spans := congrArg Frame.spans hf
  have hoff : (w.stage clock a).session.highlighter.isDisabled = f.isDisabled :=
    congrArg Frame.isDisabled hf
  rw [hspans, hoff]
  cases hframe with
  | disabled ha hon =>
    refine .inr ⟨rfl, ?_, rfl⟩
    rw [ha, Session.repaintsAll, hon]
    rfl
  | edited hsome => cases hmade.symm.trans hsome
  | _ => exact .inl rfl

theorem Mirrors.stage_off (hm : w.Mirrors) {clock : Clock} {a : Action E}
    (hoff : (w.stage clock a).session.highlighter.isDisabled = true) :
    (w.stage clock a).session.highlighter.spans = [] := by
  have hframe := w.session.stage_frame clock a
  generalize hf : (w.session.stage clock a).session.highlighter.frame = f at hframe
  have hspans : (w.stage clock a).session.highlighter.spans = f.spans := congrArg Frame.spans hf
  have hstill : f.isDisabled = true := (congrArg Frame.isDisabled hf).symm.trans hoff
  rw [hspans]
  cases hframe with
  | kept => exact hm.off hstill
  | ignored => exact hm.off hstill
  | themed => exact hm.off hstill
  | edited _ hon => cases hon.symm.trans hstill
  | rebuilt => cases hstill
  | disabled => rfl

theorem Mirrors.stage (hm : w.Mirrors) (clock : Clock) (a : Action E)
    (hfits : (w.session.stage clock a).session.document.length < wordSize) :
    (w.stage clock a).Mirrors := by
  rcases w.session.stage_document clock a with ⟨e, hmade, hedit⟩ | ⟨hmade, hdocument⟩
  · obtain ⟨hcanonical, hwithin, hcaptures⟩ := hm.edited clock hmade hedit hfits
    refine ⟨hcanonical, hwithin, hm.stage_off, fun i hi => ?_⟩
    rw [hcaptures]
    refine (congrArg Prod.fst (stage_shown_edited clock hmade i)).trans ?_
    cases hij : e.origin i with
    | none => rw [TextEdit.splice_of_inserted hij, TextEdit.splice_of_inserted hij]
    | some j =>
      rw [TextEdit.splice_of_origin hij, TextEdit.splice_of_origin hij]
      refine hm.captures j ((hedit.sound hfits).origin_lt hij ?_)
      rw [← hedit.length.2.2.2]
      exact hi
  · have hdocument : (w.stage clock a).session.document = w.session.document := hdocument
    have hkept := w.stage_spans_unedited clock hmade
    have hcanonical : Canonical (w.stage clock a).session.highlighter.spans := by
      rcases hkept with hsame | ⟨hnone, -⟩
      · rw [hsame]
        exact hm.canonical
      · rw [hnone]
        exact .nil
    refine ⟨hcanonical, ?_, hm.stage_off, fun i hi => ?_⟩
    · rw [hdocument]
      rcases hkept with hsame | ⟨hnone, -⟩
      · rw [hsame]
        exact hm.within
      · rw [hnone]
        exact fun _ ht => (List.not_mem_nil ht).elim
    · rw [hdocument] at hi
      refine (congrArg Prod.fst (stage_shown_unedited clock hmade hcanonical hi)).trans ?_
      split
      · rfl
      · rename_i hquiet
        rw [hkept.resolve_right fun hnone => hquiet hnone.2.1]
        exact hm.captures i hi

theorem mirrors_opened (config : Config) (theme : Theme) (d : Document) :
    (opened config theme d : Host E).Mirrors where
  canonical := .nil
  within _ ht := (List.not_mem_nil ht).elim
  off _ := rfl
  captures _ _ := rfl

theorem Mirrors.step (hE : E.OrdersDifferences) {owed : Nat → Prop} (hnone : ∀ i, ¬ owed i)
    (hw : w.Working Document.Holds owed []) (hm : w.Mirrors) (clock : Clock) (a : Action E)
    (hfits : (w.step clock a).session.document.length < wordSize) :
    (w.step clock a).Working Document.Holds owed [] ∧ (w.step clock a).Mirrors := by
  have hP := placement_holds E
  rw [w.step_document] at hfits
  refine step_induction
    (motive := fun answers w => w.Working Document.Holds owed answers ∧ w.Mirrors) ?_ ?_ ?_
  · exact ⟨hw.stage hP hE clock a hfits (fun i hi => (hnone i hi).elim)
      fun _ _ i hi => (hnone i hi).elim, hm.stage clock a hfits⟩
  · rintro w r o rest ⟨hw, hm⟩
    exact ⟨hw.take hP fun i hi => (hnone i hi).elim, hm.take (hw.sound hP)⟩
  · rintro w n ⟨hw, hm⟩
    exact ⟨hw.settle n, hm.canonical, hm.within, hm.off, hm.captures⟩

theorem mirrors_run (hE : E.OrdersDifferences) (config : Config) (theme : Theme) (d : Document)
    {steps : List (Clock × Action E)} (hfits : (opened config theme d).Fits steps) :
    ((opened config theme d).run steps).Mirrors := by
  have hrun := run_induction hfits
    (motive := fun w => w.Working Document.Holds (fun _ => False) [] ∧ w.Mirrors)
    ⟨working_opened config theme d fun _ => id, mirrors_opened config theme d⟩
    fun w clock a _ hfits ⟨hw, hm⟩ => hm.step hE (fun _ => id) hw clock a hfits
  exact hrun.2

/-- What a host shows of captures never drifts from the spans of its session: after every run, each
byte shows exactly the capture that the spans give it. It is assumed that ranges in which trees
differ are not reversed, and that texts fit a machine word. -/
theorem captures_shown (hE : E.OrdersDifferences) (config : Config) (theme : Theme) (d : Document)
    (steps : List (Clock × Action E)) (hfits : (opened config theme d).Fits steps) :
    let w := (opened config theme d).run steps
    ∀ i, i < w.session.document.length →
      w.display.captures i = captureAt w.session.highlighter.spans i := by
  have hrun := run_induction hfits
    (motive := fun w => w.Working Document.Holds (fun _ => False) [] ∧ w.Mirrors)
    ⟨working_opened config theme d fun _ => id, mirrors_opened config theme d⟩
    fun w clock a _ hfits ⟨hw, hm⟩ => hm.step hE (fun _ => id) hw clock a hfits
  exact hrun.2.captures

theorem captures_shown_pair :
    let w := (opened {} (.plain "plain") Commas.pair).run Commas.pairSteps
    (∀ i, i < w.session.document.length →
      w.display.captures i = captureAt w.session.highlighter.spans i) ∧
      w.session.highlighter.spans = [⟨⟨3, 4⟩, .punctuationDelimiter⟩] := by
  refine ⟨captures_shown Commas.ordersDifferences {} (.plain "plain") Commas.pair Commas.pairSteps
    Commas.pair_fits, ?_⟩
  decide +kernel

end Host

end LiveHighlight
