import LiveHighlight.Proofs.Highlight.Mirror

/-! What a session sends is always well formed. The runs of an update tile its range, which lies in
the text, and show it in the theme of the moment; and the spans that updates are made from stay
canonical throughout. -/

namespace LiveHighlight

open Spans

variable {E : SyntaxEngine}

/-- The tile that a run paints. -/
def PaintRun.tile (run : PaintRun) : Tile := ⟨run.range, run.capture⟩

/-- An update as a host may rely on it. -/
structure Repaint.Proper (u : Repaint) (d : Document) (theme : Theme) : Prop where
  ordered : u.range.start ≤ u.range.stop
  inside : u.range.stop ≤ d.length
  /-- The runs are not empty, and follow on each other from the start of the range to its end. -/
  tiled : Tiled u.range.start u.range.stop (u.runs.map (·.tile))
  varied : u.runs.IsChain fun a b => a.capture ≠ b.capture
  themed : ∀ run ∈ u.runs, run.attributes = theme.attributesFor run.capture

theorem Spans.Canonical.proper_ofSpans {spans : List Span} (h : Canonical spans) {r : ByteRange}
    (hr : r.start ≤ r.stop) {d : Document} (hd : r.stop ≤ d.length) (theme : Theme) :
    (Repaint.ofSpans theme spans r).Proper d theme where
  ordered := hr
  inside := hd
  tiled := by
    have htiles : (Repaint.ofSpans theme spans r).runs.map (·.tile) = tiles spans r := by
      simp [Repaint.ofSpans, PaintRun.tile, Function.comp_def]
    rw [htiles]
    exact h.sorted.tiles_tiled hr
  varied := (List.isChain_map _).mpr (h.tiles_varied r)
  themed run hrun := by
    obtain ⟨t, -, rfl⟩ := List.mem_map.mp hrun
    rfl

namespace Highlighter

theorem applyAll_theme (h : Highlighter E) (answers : List (ByteRange × QueryAnswer)) :
    (h.applyAll answers).1.theme = h.theme := by
  induction answers generalizing h with
  | nil => rfl
  | cons answer rest ih => exact (ih _).trans (congrArg Frame.theme (h.frame_apply _ _))

end Highlighter

/-- The updates that a run sends, each with the session after the action that sends it. -/
def Session.sent (s : Session E) : List (Clock × Action E) → List (Session E × Repaint)
  | [] => []
  | (clock, a) :: steps =>
    let done := s.step clock a
    done.2.map (done.1, ·) ++ done.1.sent steps

namespace Host

variable {owed : Nat → Prop} {w : Host E}

/-- What an answer makes a session send is proper. -/
theorem Mirrors.proper_apply (hm : w.Mirrors) {r : ByteRange} {o : QueryAnswer}
    (hsound : o.Sound w.session.document r) :
    ∀ u ∈ (w.session.highlighter.apply r o).2,
      u.Proper w.session.document w.session.highlighter.theme := by
  intro u hu
  rw [Highlighter.apply_updates, Option.mem_toList] at hu
  obtain ⟨q, hq, rfl⟩ := Option.map_eq_some_iff.mp hu
  have hcanonical := hm.canonical.overwrite hsound.ordered hsound.canonical.ordered hsound.within
  have hhugging :=
    Highlighter.hugging_repaintedBy hm.canonical hsound.canonical hsound.ordered
  have hhugs : q.Hugs _ _ := hq ▸ hhugging
  exact hcanonical.proper_ofSpans hhugs.ordered
    (Nat.le_trans (Highlighter.stop_le_of_hugs hhugs) hsound.stop) _

theorem Mirrors.proper_applyAll {answers : List (ByteRange × QueryAnswer)}
    (hw : w.Working Document.Holds owed answers) (hnone : ∀ i, ¬ owed i) (hm : w.Mirrors) :
    ∀ u ∈ (w.session.highlighter.applyAll answers).2,
      u.Proper w.session.document w.session.highlighter.theme := by
  induction answers generalizing w with
  | nil => exact fun u hu => (List.not_mem_nil hu).elim
  | cons answer rest ih =>
    obtain ⟨r, o⟩ := answer
    have hP := placement_holds E
    have hsound := hw.sound hP
    have htheme : (w.take r o).session.highlighter.theme = w.session.highlighter.theme :=
      congrArg Frame.theme (w.session.highlighter.frame_apply r o)
    intro u hu
    rcases List.mem_append.mp hu with hu | hu
    · exact hm.proper_apply hsound u hu
    · have hrest := ih (hw.take hP fun i hi => (hnone i hi).elim) (hm.take hsound) u hu
      rw [htheme] at hrest
      exact hrest

/-- What an action makes a session send is proper for the text and in the theme that it leaves. -/
theorem Mirrors.proper_step (hE : E.OrdersDifferences) (hnone : ∀ i, ¬ owed i)
    (hw : w.Working Document.Holds owed []) (hm : w.Mirrors) (clock : Clock) (a : Action E)
    (hfits : (w.step clock a).session.document.length < wordSize) :
    ∀ u ∈ (w.session.step clock a).2, u.Proper (w.session.step clock a).1.document
      (w.session.step clock a).1.highlighter.theme := by
  rw [w.step_document] at hfits
  have hstage := hm.stage clock a hfits
  have hworking : (w.stage clock a).Working Document.Holds owed (w.session.stage clock a).answers :=
    hw.stage (placement_holds E) hE clock a hfits (fun i hi => (hnone i hi).elim)
      fun _ _ i hi => (hnone i hi).elim
  have htheme : (w.session.step clock a).1.highlighter.theme =
      (w.session.stage clock a).session.highlighter.theme := by
    rw [Session.step_eq]
    exact Highlighter.applyAll_theme _ _
  rw [htheme, Session.step_eq]
  intro u hu
  rcases List.mem_append.mp hu with hu | hu
  · rw [Session.stage_sent] at hu
    split at hu
    · rename_i hall
      rw [List.mem_singleton] at hu
      have hlength : w.session.document.length =
          (w.session.stage clock a).session.document.length := by
        rcases w.session.stage_document clock a with ⟨e, hmade, -⟩ | ⟨-, hdocument⟩
        · cases (Session.quiet_of_editMade hmade).2.symm.trans hall
        · rw [hdocument]
      rw [hu]
      exact hstage.canonical.proper_ofSpans (Nat.zero_le _) (Nat.le_of_eq hlength) _
    · cases hu
  · exact hstage.proper_applyAll hworking hnone u hu

theorem Mirrors.proper_sent (hE : E.OrdersDifferences) (hnone : ∀ i, ¬ owed i)
    (hw : w.Working Document.Holds owed []) (hm : w.Mirrors) {steps : List (Clock × Action E)}
    (hfits : w.Fits steps) :
    ∀ p ∈ w.session.sent steps, p.2.Proper p.1.document p.1.highlighter.theme := by
  induction steps generalizing w with
  | nil => exact fun p hp => (List.not_mem_nil hp).elim
  | cons step steps ih =>
    obtain ⟨clock, a⟩ := step
    obtain ⟨hw', hm'⟩ := hm.step hE hnone hw clock a hfits.2.head
    intro p hp
    rcases List.mem_append.mp hp with hp | hp
    · obtain ⟨u, hu, rfl⟩ := List.mem_map.mp hp
      exact hm.proper_step hE hnone hw clock a hfits.2.head u hu
    · exact ih hw' hm' hfits.2 p hp

/-- Spans and updates are well formed throughout. After every run the spans are canonical and inside
the text, and each update of the run is proper for the text and the theme of its time. It is assumed
that ranges in which trees differ are not reversed, and that texts fit a machine word. -/
theorem updates_proper (hE : E.OrdersDifferences) (config : Config) (theme : Theme) (d : Document)
    (steps : List (Clock × Action E)) (hfits : (opened config theme d).Fits steps) :
    let start : Host E := opened config theme d
    let s := (start.run steps).session
    Canonical s.highlighter.spans ∧ Within ⟨0, s.document.length⟩ s.highlighter.spans ∧
      ∀ p ∈ start.session.sent steps, p.2.Proper p.1.document p.1.highlighter.theme := by
  intro start s
  have hworking : start.Working Document.Holds (fun _ => False) [] :=
    working_opened config theme d fun _ => id
  have hmirrors := mirrors_run hE config theme d hfits
  exact ⟨hmirrors.canonical, hmirrors.within,
    (mirrors_opened config theme d).proper_sent hE (fun _ => id) hworking hfits⟩

/-- An edit of a text with a comma repaints what is inserted and moves the comma along. -/
theorem updates_proper_pair :
    let start := opened {} (.plain "plain") Commas.pair
    let s := (start.run Commas.pairSteps).session
    (Canonical s.highlighter.spans ∧ Within ⟨0, s.document.length⟩ s.highlighter.spans ∧
      ∀ p ∈ start.session.sent Commas.pairSteps,
        p.2.Proper p.1.document p.1.highlighter.theme) ∧
      (start.session.sent Commas.pairSteps).map (·.2.range) = [⟨0, 5⟩, ⟨1, 3⟩] := by
  refine ⟨updates_proper Commas.ordersDifferences {} (.plain "plain") Commas.pair Commas.pairSteps
    Commas.pair_fits, ?_⟩
  decide +kernel

end Host

end LiveHighlight
