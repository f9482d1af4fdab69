import LiveHighlight.Proofs.Highlight.Mirror

/-! What an edit or a piece of idle work makes a session send. It is one update at most, for what
the answer of its query changes and for what was unpainted of the covered range. The update is as
small as it can be, unless the unpainted range only touches the covered one: then it reaches to
where they touch, and is empty if nothing is to be sent. -/

namespace LiveHighlight

open Spans

variable {E : SyntaxEngine}

/-- Whether an action is an edit or a piece of idle work. -/
def Action.increments : Action E → Bool
  | .edit _ _ | .idle => true
  | _ => false

namespace Session

variable {clock : Clock} {a : Action E}

theorem stage_answers (s : Session E) (ha : a.increments = true) :
    (s.stage clock a).answers = [] ∨ ∃ r o, (s.stage clock a).answers = [(r, o)] := by
  have htoList : ∀ answered : Option (ByteRange × QueryAnswer),
      answered.toList = [] ∨ ∃ r o, answered.toList = [(r, o)] := by
    rintro (_ | ⟨r, o⟩)
    · exact .inl rfl
    · exact .inr ⟨r, o, rfl⟩
  cases a with
  | edit r text =>
    rcases s.stage_edit clock r text with ⟨e, d, -, -, hstage⟩ | ⟨-, hstage⟩ <;> rw [hstage]
    · exact htoList _
    · exact .inl rfl
  | idle => exact htoList _
  | _ => cases ha

/-- All that such an action sends is sent for its answer. -/
theorem step_sent {s : Session E} (ha : a.increments = true) :
    (s.step clock a).2 =
      ((s.stage clock a).session.highlighter.applyAll (s.stage clock a).answers).2 := by
  have hquiet : s.repaintsAll a = false := by
    cases a with
    | edit r text => rfl
    | idle => rfl
    | _ => cases ha
  rw [step_eq, Stage.finish, stage_sent, hquiet]
  rfl

/-- When its query is made, an edit has moved the spans and the unpainted range along. -/
theorem stage_moved {s : Session E} (ha : a.increments = true)
    (hon : (s.stage clock a).session.highlighter.isDisabled = false) :
    let h := (s.stage clock a).session.highlighter
    h.spans = (s.editMade a).elim s.highlighter.spans (carry s.highlighter.spans) ∧
      h.unpainted = (s.editMade a).elim s.highlighter.unpainted
        (Highlighter.unpaintedAfter · s.highlighter.unpainted) := by
  have hframe := s.stage_frame clock a
  generalize hf : (s.stage clock a).session.highlighter.frame = f at hframe
  have hspans : (s.stage clock a).session.highlighter.spans = f.spans := congrArg Frame.spans hf
  have hunpainted : (s.stage clock a).session.highlighter.unpainted = f.unpainted :=
    congrArg Frame.unpainted hf
  have hstill : f.isDisabled = false := (congrArg Frame.isDisabled hf).symm.trans hon
  simp only [hspans, hunpainted]
  cases hframe with
  | kept hnone =>
    rw [hnone]
    exact ⟨rfl, rfl⟩
  | edited hmade =>
    rw [hmade]
    exact ⟨rfl, rfl⟩
  | ignored _ hoff => cases hoff.symm.trans hstill
  | themed ha' => cases (ha' ▸ ha : (Action.setTheme _ : Action E).increments = true)
  | disabled ha' => cases (ha' ▸ ha : (Action.disable : Action E).increments = true)
  | rebuilt _ hrebuilds =>
    cases a with
    | edit r text => cases hrebuilds
    | idle => cases hrebuilds
    | _ => cases ha

end Session

namespace Host

/-- When an answer is taken in, the spans are canonical and the answer is sound. -/
theorem Mirrors.asked (hE : E.OrdersDifferences) {w : Host E} (hm : w.Mirrors)
    (hw : w.Working Document.Holds (fun _ => False) []) {clock : Clock} {a : Action E}
    (hfits : (w.session.stage clock a).session.document.length < wordSize) {r : ByteRange}
    {o : QueryAnswer} (hone : (w.session.stage clock a).answers = [(r, o)]) :
    Canonical (w.session.stage clock a).session.highlighter.spans ∧
      o.Sound (w.session.stage clock a).session.document r ∧
      (w.session.stage clock a).session.highlighter.isDisabled = false := by
  have hP := placement_holds E
  have hasked := hw.stage hP hE clock a hfits (fun i hi => hi.elim) fun _ _ i hi => hi
  rw [hone] at hasked
  exact ⟨(hm.stage clock a hfits).canonical, hasked.sound hP,
    (hasked.answered (r, o) (List.mem_cons_self ..)).1⟩

/-- An edit or a piece of idle work sends what it must. After every run, it takes in one answer at
most and sends one update at most; and that reaches around the covered bytes that change their
capture or are unpainted, around the offset where the unpainted range touches the covered one, and
no further. So it reaches no further than these bytes if and only if the offset lies within the
range around them. It is assumed that ranges in which trees differ are not reversed, and that texts
fit a machine word. -/
theorem increments_send (hE : E.OrdersDifferences) (config : Config) (theme : Theme) (d : Document)
    (steps : List (Clock × Action E)) (hfits : (opened config theme d).Fits steps) (clock : Clock)
    (a : Action E) (ha : a.increments = true) :
    let s := ((opened config theme d).run steps).session
    let h := (s.stage clock a).session.highlighter
    let sent := (s.step clock a).2
    (s.step clock a).1.document.length < wordSize →
    ((s.stage clock a).answers = [] ∧ sent = []) ∨
      ∃ r o, (s.stage clock a).answers = [(r, o)] ∧
        h.spans = (s.editMade a).elim s.highlighter.spans (carry s.highlighter.spans) ∧
        h.unpainted = (s.editMade a).elim s.highlighter.unpainted
          (Highlighter.unpaintedAfter · s.highlighter.unpainted) ∧
        sent.length ≤ 1 ∧
        ByteRange.Hugging (h.Wants o) (h.Touches o) (sent.head?.map (·.range)) ∧
        (ByteRange.Hugging (h.Wants o) (fun _ => False) (sent.head?.map (·.range)) ↔
          ∀ p, h.Touches o p → ∃ q : ByteRange, q.Hugs (h.Wants o) (fun _ => False) ∧
            q.start ≤ p ∧ p ≤ q.stop) := by
  intro s h sent hlast
  have hmirrors := mirrors_run hE config theme d hfits
  have hworking := working_run (placement_holds E) hE config theme d hfits
  have hstage : (s.stage clock a).session.document.length < wordSize := by
    rwa [Session.step_eq] at hlast
  have hsent : sent = (h.applyAll (s.stage clock a).answers).2 := Session.step_sent ha
  rcases s.stage_answers ha with hnone | ⟨r, o, hone⟩
  · exact .inl ⟨hnone, by rw [hsent, hnone]; rfl⟩
  · obtain ⟨hcanonical, hsound, hon⟩ := hmirrors.asked hE hworking hstage hone
    obtain ⟨hspans, hunpainted⟩ := Session.stage_moved ha hon
    have happly : sent = (h.apply r o).2 := by
      rw [hsent, hone]
      exact List.append_nil _
    obtain ⟨hsingle, hhugging⟩ :=
      Highlighter.hugging_apply hcanonical hsound.canonical hsound.ordered r
    rw [← happly] at hsingle hhugging
    exact .inr ⟨r, o, hone, hspans, hunpainted, hsingle, hhugging,
      ByteRange.hugging_without_iff hhugging⟩

/-- An edit of the first row that changes nothing sends an empty update, as the row ends where the
unpainted text begins. -/
theorem increments_send_brink :
    let s := ((opened { queryBudgetMicros := 0 } (.plain "plain") Commas.brink).run
      Commas.brinkSteps).session
    let a : Action Commas.engine := .edit ⟨0, 0⟩ ""
    let h := (s.stage .steady a).session.highlighter
    (s.step .steady a).2.map (·.range) = [⟨127, 127⟩] ∧
      ∃ r o, (s.stage .steady a).answers = [(r, o)] ∧ h.Touches o 127 ∧ ∀ i, ¬ h.Wants o i := by
  intro s a h
  have hsent : (s.step .steady a).2.map (·.range) = [⟨127, 127⟩] := by decide +kernel
  have hhead : (s.step .steady a).2.head?.map (·.range) = some ⟨127, 127⟩ := by
    rw [← List.head?_map, hsent]
    rfl
  rcases increments_send Commas.ordersDifferences { queryBudgetMicros := 0 } (.plain "plain")
    Commas.brink Commas.brinkSteps Commas.brink_fits .steady a rfl (by decide +kernel) with
    ⟨-, hnone⟩ | ⟨r, o, hone, hanswered⟩
  · rw [hnone] at hsent
    cases hsent
  · rw [hhead] at hanswered
    have hhugs : ByteRange.Hugs (h.Wants o) (h.Touches o) ⟨127, 127⟩ := hanswered.2.2.2.1
    have hbytes : ∀ i, ¬ h.Wants o i := fun i hi => by
      have := ByteRange.contains_iff.mp (hhugs.around i hi)
      simp only at this
      omega
    exact ⟨hsent, r, o, hone, hhugs.first.resolve_left (hbytes 127), hbytes⟩

end Host

end LiveHighlight
