import LiveHighlight.Proofs.Host
import LiveHighlight.Proofs.Highlight.Answer
import LiveHighlight.Proofs.Span.Rewrite
import LiveHighlight.Proofs.Span.Tiles

/-! What of a highlighter no query changes, what actions do to it before any answer is taken in, and
what the updates do to a display. -/

namespace LiveHighlight

variable {E : SyntaxEngine}

/-- What of a highlighter no query changes. -/
structure Frame where
  theme : Theme
  spans : List Span
  unpainted : Option ByteRange
  isDisabled : Bool
  hasWorker : Bool

namespace Highlighter

variable {h h' : Highlighter E} {d : Document}

def frame (h : Highlighter E) : Frame :=
  ⟨h.theme, h.spans, h.unpainted, h.isDisabled, h.worker.isSome⟩

theorem frame_ask (hon : h.isDisabled = false) (clock : Clock) (r : ByteRange) (d : Document) :
    (h.ask clock r d).highlighter.frame = h.frame := by
  unfold ask
  simp only
  split
  · rename_i w target hw _
    have hframe : h.frame = ⟨h.theme, h.spans, h.unpainted, false, true⟩ := by
      rw [frame, hon, hw]
      rfl
    exact hframe.symm
  · generalize h.parser.queryFollowing clock r d = result
    obtain ⟨p, found⟩ := result
    cases found <;> rfl

theorem frame_rebuild (hon : h.isDisabled = false) (clock : Clock) (d : Document) :
    (h.rebuild clock d).highlighter.frame =
      { h.frame with unpainted := some (wholeText d) } := by
  unfold rebuild
  simp only
  generalize (h.startOver d).parser.reparse clock d = result
  obtain ⟨p, parsed⟩ := result
  cases parsed with
  | ok ranges => exact frame_ask (h := { h.startOver d with parser := p }) hon ..
  | error failure => exact congrArg (Frame.mk h.theme h.spans _ · _) hon.symm

theorem frame_askChanged (h : Highlighter E) (clock : Clock) (e : TextEdit) (d : Document) :
    (h.askChanged clock e d).highlighter.frame =
      if h.isDisabled then h.frame
      else
        { h.frame with
          spans := Spans.carry h.spans e
          unpainted := unpaintedAfter e h.unpainted } := by
  unfold askChanged
  by_cases hoff : h.isDisabled = true
  · rw [if_pos hoff, if_pos hoff]
  · have hon : h.isDisabled = false := by simpa using hoff
    rw [if_neg hoff, if_neg hoff]
    simp only
    generalize (h.moveAlong e).parser.reparse clock d = result
    obtain ⟨p, parsed⟩ := result
    cases parsed with
    | ok ranges => exact frame_ask (h := { h.moveAlong e with parser := p }) hon ..
    | error failure => exact congrArg (Frame.mk h.theme _ _ · _) hon.symm

theorem frame_askIdle (h : Highlighter E) (clock : Clock) (d : Document) :
    (h.askIdle clock d).highlighter.frame = h.frame := by
  unfold askIdle
  split
  · rfl
  · rename_i hoff
    have hon : h.isDisabled = false := by simpa using hoff
    split
    · simp only
      generalize h.parser.reparse clock d = result
      obtain ⟨p, parsed⟩ := result
      cases parsed with
      | ok ranges =>
        exact frame_ask (h := { h with parser := p, reparsePending := false }) hon ..
      | error failure => rfl
    · split
      · rfl
      · split
        · rfl
        · rename_i next others _
          exact frame_ask (h := { h with deferred := others }) hon ..

/-- Taking in an answer keeps the theme and writes the spans of the answer over its range. -/
theorem frame_apply (h : Highlighter E) (r : ByteRange) (o : QueryAnswer) :
    (h.apply r o).1.frame = ⟨h.theme, Spans.overwrite h.spans o.covered o.spans,
      h.unpainted.bind (stillUnpainted o.covered), false, h.worker.isSome⟩ := by
  obtain ⟨stats, happly⟩ := h.apply_fst r o
  rw [happly]
  rfl

theorem apply_updates (h : Highlighter E) (r : ByteRange) (o : QueryAnswer) :
    (h.apply r o).2 = ((h.repaintedBy o).map
      (Repaint.ofSpans h.theme (Spans.overwrite h.spans o.covered o.spans))).toList := by
  unfold apply
  cases h.repaintedBy o <;> rfl

end Highlighter

namespace Session

variable {s : Session E} {clock : Clock} {a : Action E}

/-- Whether an action paints the whole text. -/
def repaintsAll (s : Session E) : Action E → Bool
  | .setTheme _ | .disable => !s.highlighter.isDisabled
  | _ => false

/-- What an action can do to the frame before it takes in answers. -/
inductive FrameStep (s : Session E) (a : Action E) : Frame → Prop
  | kept (hmade : s.editMade a = none) (hrebuilds : s.rebuilds a = false)
      (hquiet : s.repaintsAll a = false) : FrameStep s a s.highlighter.frame
  | edited {e : TextEdit} (hmade : s.editMade a = some e)
      (hon : s.highlighter.isDisabled = false) :
      FrameStep s a { s.highlighter.frame with
        spans := Spans.carry s.highlighter.spans e
        unpainted := Highlighter.unpaintedAfter e s.highlighter.unpainted }
  | ignored {e : TextEdit} (hmade : s.editMade a = some e)
      (hoff : s.highlighter.isDisabled = true) : FrameStep s a s.highlighter.frame
  | themed {theme : Theme} (ha : a = .setTheme theme) :
      FrameStep s a { s.highlighter.frame with theme }
  | rebuilt (hmade : s.editMade a = none) (hrebuilds : s.rebuilds a = true)
      (hquiet : s.repaintsAll a = false) :
      FrameStep s a { s.highlighter.frame with
        unpainted := some (Highlighter.wholeText s.document)
        isDisabled := false }
  | disabled (ha : a = .disable) (hon : s.highlighter.isDisabled = false) :
      FrameStep s a { s.highlighter.frame with spans := [], unpainted := none, isDisabled := true }

theorem frameStep_setLanguage (s : Session E) (clock : Clock) (g : Grammar E) :
    s.FrameStep (.setLanguage g)
      (s.highlighter.askLanguage clock g s.document).highlighter.frame := by
  have hrebuilds : s.rebuilds (.setLanguage g) = !s.highlighter.isDisabled := rfl
  unfold Highlighter.askLanguage
  split
  · rename_i hoff
    exact .kept rfl (by rw [hrebuilds, hoff]; rfl) rfl
  · rename_i hoff
    have hon := (Bool.not_eq_true _).mp hoff
    have hframe := Highlighter.frame_rebuild (h := s.highlighter.load g) hon clock s.document
    have hstep : s.FrameStep (.setLanguage g) { s.highlighter.frame with
        unpainted := some (Highlighter.wholeText s.document)
        isDisabled := false } := .rebuilt rfl (by rw [hrebuilds, hon]; rfl) rfl
    rw [← hon] at hstep
    rw [hframe]
    exact hstep

theorem frameStep_enable (s : Session E) (clock : Clock) :
    s.FrameStep .enable (s.highlighter.askEnabled clock s.document).highlighter.frame := by
  unfold Highlighter.askEnabled
  split
  · rename_i hoff
    have hframe := Highlighter.frame_rebuild (h := { s.highlighter with state := .idle }) rfl clock
      s.document
    rw [hframe]
    exact .rebuilt rfl hoff rfl
  · rename_i hoff
    exact .kept rfl ((Bool.not_eq_true _).mp hoff) rfl

theorem stage_frame (s : Session E) (clock : Clock) (a : Action E) :
    s.FrameStep a (s.stage clock a).session.highlighter.frame := by
  cases a with
  | edit r text =>
    rcases s.stage_edit clock r text with ⟨e, d, -, hmade, hstage⟩ | ⟨hmade, hstage⟩
    · have hframe := s.highlighter.frame_askChanged clock e d
      rw [hstage]
      change s.FrameStep _ (s.highlighter.askChanged clock e d).highlighter.frame
      rw [hframe]
      split
      · rename_i hoff
        exact .ignored hmade hoff
      · rename_i hoff
        exact .edited hmade ((Bool.not_eq_true _).mp hoff)
    · rw [hstage]
      exact .kept hmade rfl rfl
  | setTheme theme =>
    have hframe : (s.highlighter.setTheme theme s.document).1.frame =
        { s.highlighter.frame with theme } := by
      unfold Highlighter.setTheme
      simp only
      split <;> rfl
    change s.FrameStep _ (s.highlighter.setTheme theme s.document).1.frame
    rw [hframe]
    exact .themed rfl
  | disable =>
    change s.FrameStep _ (s.highlighter.disable s.document).1.frame
    unfold Highlighter.disable
    split
    · rename_i hoff
      exact .kept rfl rfl (by rw [repaintsAll, hoff]; rfl)
    · rename_i hoff
      exact .disabled rfl ((Bool.not_eq_true _).mp hoff)
  | setLanguage g => exact s.frameStep_setLanguage clock g
  | enable => exact s.frameStep_enable clock
  | idle =>
    change s.FrameStep _ (s.highlighter.askIdle clock s.document).highlighter.frame
    rw [Highlighter.frame_askIdle]
    exact .kept rfl rfl rfl
  | poll =>
    have hframe : (s.stage clock .poll).session.highlighter.frame = s.highlighter.frame := by
      simp only [stage]
      cases s.highlighter.worker with
      | some w => exact congrArg (Frame.mk _ _ _ _) Option.isSome_map
      | none => rfl
    rw [hframe]
    exact .kept rfl rfl rfl
  | work m =>
    have hframe : (s.highlighter.moveWorker clock m).frame = s.highlighter.frame :=
      congrArg (Frame.mk _ _ _ _) Option.isSome_map
    change s.FrameStep _ (s.highlighter.moveWorker clock m).frame
    rw [hframe]
    exact .kept rfl rfl rfl
  | setCursors positions => exact .kept rfl rfl rfl
  | setParseTimeout micros => exact .kept rfl rfl rfl

/-- An action that paints the whole text sends it by the spans and in the theme it leaves. -/
theorem stage_sent (s : Session E) (clock : Clock) (a : Action E) :
    (s.stage clock a).sent =
      if s.repaintsAll a then
        [.ofSpans (s.stage clock a).session.highlighter.theme
          (s.stage clock a).session.highlighter.spans (Highlighter.wholeText s.document)]
      else [] := by
  cases a with
  | edit r text =>
    rcases s.stage_edit clock r text with ⟨e, d, -, -, hstage⟩ | ⟨-, hstage⟩ <;> rw [hstage] <;> rfl
  | setTheme theme =>
    have hall : s.repaintsAll (.setTheme theme) = !s.highlighter.isDisabled := rfl
    change (s.highlighter.setTheme theme s.document).2 = if _ then [.ofSpans
      (s.highlighter.setTheme theme s.document).1.theme
      (s.highlighter.setTheme theme s.document).1.spans _] else []
    unfold Highlighter.setTheme
    simp only
    split
    · rename_i hoff
      rw [if_neg (by rw [hall, show s.highlighter.isDisabled = true from hoff]; simp)]
    · rename_i hoff
      rw [if_pos (by rw [hall, show s.highlighter.isDisabled = false from
        (Bool.not_eq_true _).mp hoff]; rfl)]
      rfl
  | disable =>
    have hall : s.repaintsAll .disable = !s.highlighter.isDisabled := rfl
    change (s.highlighter.disable s.document).2 = if _ then [.ofSpans
      (s.highlighter.disable s.document).1.theme
      (s.highlighter.disable s.document).1.spans _] else []
    unfold Highlighter.disable
    split
    · rename_i hoff
      rw [if_neg (by rw [hall, hoff]; simp)]
    · rename_i hoff
      rw [if_pos (by rw [hall, (Bool.not_eq_true _).mp hoff]; rfl)]
      rfl
  | poll =>
    simp only [stage, repaintsAll]
    cases s.highlighter.worker <;> rfl
  | setLanguage g => rfl
  | enable => rfl
  | setCursors positions => rfl
  | setParseTimeout micros => rfl
  | idle => rfl
  | work m => rfl

theorem quiet_of_editMade {e : TextEdit} (hmade : s.editMade a = some e) :
    s.rebuilds a = false ∧ s.repaintsAll a = false := by
  cases a with
  | edit r text => exact ⟨rfl, rfl⟩
  | _ => cases hmade

theorem stage_document (s : Session E) (clock : Clock) (a : Action E) :
    (∃ e, s.editMade a = some e ∧ s.document.Edits e (s.stage clock a).session.document) ∨
      (s.editMade a = none ∧ (s.stage clock a).session.document = s.document) := by
  cases a with
  | edit r text =>
    rcases s.stage_edit clock r text with ⟨e, d, hedit, hmade, hstage⟩ | ⟨hmade, hstage⟩
    · exact .inl ⟨e, hmade, by rw [hstage]; exact hedit⟩
    · exact .inr ⟨hmade, by rw [hstage]⟩
  | poll =>
    refine .inr ⟨rfl, ?_⟩
    simp only [stage]
    cases s.highlighter.worker <;> rfl
  | setTheme theme => exact .inr ⟨rfl, rfl⟩
  | setLanguage g => exact .inr ⟨rfl, rfl⟩
  | disable => exact .inr ⟨rfl, rfl⟩
  | enable => exact .inr ⟨rfl, rfl⟩
  | setCursors positions => exact .inr ⟨rfl, rfl⟩
  | setParseTimeout micros => exact .inr ⟨rfl, rfl⟩
  | idle => exact .inr ⟨rfl, rfl⟩
  | work m => exact .inr ⟨rfl, rfl⟩

end Session

/-! ### Displays -/

namespace Display

/-- What a byte shows: the capture, and the attributes it was painted with. -/
def shown (s : Display) (i : Nat) : Option Capture × Option Attributes :=
  (s.captures i, s.attributes i)

theorem shown_paint (s : Display) (r : ByteRange) (c : Option Capture) (attributes : Attributes)
    (i : Nat) : (s.paint ⟨r, c, attributes⟩).shown i =
      if r.start ≤ i ∧ i < r.stop then (c, some attributes) else s.shown i := by
  simp only [shown, paint, ByteRange.contains_iff]
  split <;> rfl

/-- Painting tiles one after the other paints each of their bytes by its capture. -/
theorem shown_foldl_paint {f : Nat → Option Capture} (theme : Theme) {pos stop : Nat}
    {ts : List Spans.Tile} (h : Spans.Tiled pos stop ts) (hf : Spans.Shows f ts) (s : Display)
    (i : Nat) :
    ((ts.map fun t => (⟨t.range, t.capture, theme.attributesFor t.capture⟩ : PaintRun)).foldl paint
      s).shown i =
      if pos ≤ i ∧ i < stop then (f i, some (theme.attributesFor (f i))) else s.shown i := by
  induction ts generalizing pos s with
  | nil =>
    have : pos = stop := h
    rw [if_neg (by omega)]
    rfl
  | cons t ts ih =>
    obtain ⟨rfl, hlt, hrest⟩ := h
    have hle := hrest.le
    rw [List.map_cons, List.foldl_cons, ih hrest hf.tail]
    by_cases hpast : t.range.stop ≤ i
    · rw [shown_paint, if_neg (show ¬ (t.range.start ≤ i ∧ i < t.range.stop) by omega)]
      simp only [hpast, true_and, show t.range.start ≤ i by omega]
    · rw [if_neg (show ¬ (t.range.stop ≤ i ∧ i < stop) by omega), shown_paint]
      by_cases hin : t.range.start ≤ i
      · rw [if_pos (by omega), if_pos (by omega), hf t (List.mem_cons_self ..) i hin (by omega)]
      · rw [if_neg (by omega), if_neg (by omega)]

/-- An update paints every byte of its range by its capture. -/
theorem shown_receive_ofSpans {spans : List Span} (hc : Spans.Canonical spans) {r : ByteRange}
    (hr : r.start ≤ r.stop) (theme : Theme) (s : Display) (i : Nat) :
    (s.receive [.ofSpans theme spans r]).shown i =
      if r.contains i then
        (Spans.captureAt spans i, some (theme.attributesFor (Spans.captureAt spans i)))
      else s.shown i := by
  have hpaint := shown_foldl_paint theme (hc.sorted.tiles_tiled hr) (hc.sorted.tiles_show hr) s i
  simp only [ByteRange.contains_iff]
  exact hpaint

theorem shown_follow (s : Display) (e : TextEdit) (i : Nat) :
    (s.follow e).shown i = e.splice (none, none) s.shown i := by
  simp only [Display.shown, follow, TextEdit.splice]
  cases e.origin i <;> rfl

end Display

end LiveHighlight
