import LiveHighlight.Proofs.Highlight.Freshness

/-! What a host shows of attributes. A byte that does not show the attributes of its capture lies in
the unpainted range and is owed, unless an answer took it off that range without covering it, or
idle work took its range early. -/

namespace LiveHighlight

open Spans

variable {E : SyntaxEngine}

namespace Highlighter

variable {d d' : Document}

theorem stillUnpainted_stop {covered u q : ByteRange} (hq : stillUnpainted covered u = some q)
    (hu : u.start ≤ u.stop) : q.start ≤ q.stop ∧ q.stop = u.stop := by
  unfold stillUnpainted at hq
  split at hq
  · cases hq
    exact ⟨by simp only; omega, rfl⟩
  · split at hq
    · cases hq
      exact ⟨hu, rfl⟩
    · cases hq

/-- An edit takes the unpainted text along, and adds what it inserts. -/
theorem any_unpaintedAfter {e : TextEdit} {length : Nat} (he : e.Sound length)
    {unpainted : Option ByteRange} (hinside : ∀ u, unpainted = some u → u.stop ≤ length) {i : Nat}
    (hi : followed (some e) True (fun j => unpainted.any (·.contains j) = true) i) :
    (unpaintedAfter e unpainted).any (·.contains i) = true := by
  obtain ⟨q, hq, hqi⟩ : ∃ q, (if e.newRange.isEmpty then unpainted.map e.carryRange
      else some (ByteRange.hullWith (unpainted.map e.carryRange) e.newRange)) = some q ∧
      q.contains i = true := by
    simp only [followed, Option.elim_some] at hi
    cases hij : e.origin i with
    | none =>
      have hnew := TextEdit.contains_newRange hij
      have hfull : ¬ e.newRange.isEmpty = true := by
        rw [ByteRange.isEmpty_iff]
        rw [ByteRange.contains_iff] at hnew
        omega
      exact ⟨_, if_neg hfull, ByteRange.contains_hullWith (List.mem_cons_self ..) hnew⟩
    | some j =>
      rw [TextEdit.splice_of_origin hij] at hi
      obtain ⟨u, rfl, hu⟩ := (Option.any_eq_true _ _).mp hi
      have hcarried := he.contains_carryRange hij hu (hinside u rfl)
      by_cases hempty : e.newRange.isEmpty = true
      · exact ⟨_, if_pos hempty, hcarried⟩
      · exact ⟨_, if_neg hempty, ByteRange.contains_hull_left hcarried⟩
  refine (Option.any_eq_true _ _).mpr ⟨q, ?_, hqi⟩
  unfold unpaintedAfter
  simp only
  rw [hq, Option.filter_some, if_pos]
  rw [Bool.not_eq_true', ← Bool.not_eq_true, ByteRange.isEmpty_iff]
  rw [ByteRange.contains_iff] at hqi
  omega

theorem placed_unpaintedAfter {P : Document → ByteRange → Prop} (hP : Placement E P) {e : TextEdit}
    (hedit : d.Edits e d') (hfits : d'.length < wordSize) {unpainted : Option ByteRange}
    (hplaced : ∀ u, unpainted = some u → P d u) {q : ByteRange}
    (hq : unpaintedAfter e unpainted = some q) : P d' q := by
  have hmoved : ∀ r, unpainted.map e.carryRange = some r → P d' r := by
    intro r hr
    obtain ⟨u, hu, rfl⟩ := Option.map_eq_some_iff.mp hr
    exact hP.carry hedit hfits (hplaced u hu)
  have hnew : P d' e.newRange := hP.takes hedit.takes_newRange
  obtain ⟨hq, -⟩ := Option.filter_eq_some_iff.mp hq
  split at hq
  · exact hmoved q hq
  · cases hq
    exact hP.hullWith hmoved hnew

end Highlighter

theorem Session.theme_of_stage {s : Session E} {a : Action E}
    (hon : s.highlighter.isDisabled = false) (hquiet : s.repaintsAll a = false) (clock : Clock) :
    (s.stage clock a).session.highlighter.theme = s.highlighter.theme := by
  have hframe := s.stage_frame clock a
  generalize hf : (s.stage clock a).session.highlighter.frame = f at hframe
  refine (congrArg Frame.theme hf).trans ?_
  cases hframe with
  | themed ha =>
    rw [ha, Session.repaintsAll, hon] at hquiet
    cases hquiet
  | _ => rfl

theorem Session.edits_of_made {s : Session E} {a : Action E} {e : TextEdit}
    (hmade : s.editMade a = some e) (clock : Clock) :
    s.document.Edits e (s.stage clock a).session.document := by
  rcases s.stage_document clock a with ⟨e', hmade', hedit⟩ | ⟨hnone, -⟩
  · cases hmade.symm.trans hmade'
    exact hedit
  · cases hmade.symm.trans hnone

theorem Session.document_of_unedited {s : Session E} {a : Action E} (hmade : s.editMade a = none)
    (clock : Clock) : (s.stage clock a).session.document = s.document := by
  rcases s.stage_document clock a with ⟨e, hsome, -⟩ | ⟨-, hdocument⟩
  · cases hmade.symm.trans hsome
  · exact hdocument

namespace Host

variable {w : Host E} {begun : Prop}

/-- A byte of an enabled session that does not show the attributes of its capture, and that no
answer took off the unpainted text. -/
structure Bare (w : Host E) (i : Nat) : Prop where
  on : w.session.highlighter.isDisabled = false
  inside : i < w.session.document.length
  unpainted : painted w.session w.display i = false
  kept : w.dropped i = false

/-- A host that, once a text has been parsed, owes every bare byte and has it in its unpainted
range. -/
structure Paints (begun : Prop) (answers : List (ByteRange × QueryAnswer)) (w : Host E) : Prop where
  working : w.Working Document.Takes (fun i => begun ∧ w.Bare i ∧ w.early i = false) answers
  mirrors : w.Mirrors
  held : ∀ u, w.session.highlighter.unpainted = some u →
    w.session.highlighter.isDisabled = false ∧ w.session.document.Holds u
  marked : begun → ∀ i, w.Bare i → w.session.highlighter.unpainted.any (·.contains i) = true

theorem paints_opened (config : Config) (theme : Theme) (d : Document) :
    (opened config theme d : Host E).Paints False [] where
  working := working_opened config theme d fun _ hi => hi.1
  mirrors := mirrors_opened config theme d
  held _ hu := by cases hu
  marked hbegun := hbegun.elim

theorem painted_of_shown {s : Session E} {display : Display} {i : Nat}
    (h : (display.shown i).2 = some (s.highlighter.theme.attributesFor
      (captureAt s.highlighter.spans i))) : painted s display i = true :=
  beq_iff_eq.mpr h

theorem painted_congr {s s' : Session E} {display display' : Display} {i j : Nat}
    (htheme : s'.highlighter.theme = s.highlighter.theme)
    (hcapture : captureAt s'.highlighter.spans i = captureAt s.highlighter.spans j)
    (hshown : display'.shown i = display.shown j) :
    painted s' display' i = painted s display j := by
  have hattributes : display'.attributes i = display.attributes j := congrArg Prod.snd hshown
  simp only [painted, htheme, hcapture, hattributes]

/-! ### Answers -/

/-- A byte that is bare when an answer has been taken in was bare before, is unpainted still, and
the answer does not cover it. -/
theorem Paints.bare_of_take (hE : E.AlignsCaptures) {r : ByteRange} {o : QueryAnswer}
    {rest : List (ByteRange × QueryAnswer)} (hp : w.Paints begun ((r, o) :: rest)) {i : Nat}
    (hi : (w.take r o).Bare i) (hbegun : begun) :
    w.Bare i ∧ o.covered.contains i = false ∧
      (w.take r o).session.highlighter.unpainted.any (·.contains i) = true := by
  have hsound := hp.working.sound (placement_takes hE)
  have hon := (hp.working.answered (r, o) (List.mem_cons_self ..)).1
  have hframe := w.session.highlighter.frame_apply r o
  have htheme : (w.take r o).session.highlighter.theme = w.session.highlighter.theme :=
    congrArg Frame.theme hframe
  have hstill : (w.take r o).session.highlighter.unpainted =
      w.session.highlighter.unpainted.bind (Highlighter.stillUnpainted o.covered) :=
    congrArg Frame.unpainted hframe
  obtain ⟨-, hinside, hunpainted, hkept⟩ := hi
  simp only [Host.take, Bool.or_eq_false_iff] at hkept
  rcases hp.mirrors.take_byte hsound i with hshown | ⟨hshown, hcapture, huncovered⟩
  · cases hunpainted.symm.trans (painted_of_shown (by rw [hshown, htheme]))
  · have hbare : w.Bare i :=
      ⟨hon, hinside, (painted_congr htheme hcapture hshown).symm.trans hunpainted, hkept.1⟩
    have hmarked := hp.marked hbegun i hbare
    have hout : o.covered.contains i = false :=
      (Bool.not_eq_true _).mp fun hin => huncovered ⟨hin, hmarked⟩
    refine ⟨hbare, hout, ?_⟩
    -- Only what is neither covered nor dropped is left.
    have hnot := hkept.2
    rw [Highlighter.drops, hmarked, hout] at hnot
    rw [hstill]
    simpa using hnot

theorem Paints.take (hE : E.AlignsCaptures) {r : ByteRange} {o : QueryAnswer}
    {rest : List (ByteRange × QueryAnswer)} (hp : w.Paints begun ((r, o) :: rest)) :
    (w.take r o).Paints begun rest := by
  have hP := placement_takes hE
  refine ⟨hp.working.take hP ?_, hp.mirrors.take (hp.working.sound hP), fun q hq => ?_,
    fun hbegun i hi => (hp.bare_of_take hE hi hbegun).2.2⟩
  · rintro i ⟨hbegun, hi, hlate⟩
    obtain ⟨hbare, hout, -⟩ := hp.bare_of_take hE hi hbegun
    refine ⟨⟨hbegun, hbare, ?_⟩, hout⟩
    simpa [Host.take, hout] using hlate
  · have hstill := congrArg Frame.unpainted (w.session.highlighter.frame_apply r o)
    obtain ⟨u, hu, hq⟩ := Option.bind_eq_some_iff.mp (hstill.symm.trans hq)
    have hholds := (hp.held u hu).2
    obtain ⟨hordered, hstop⟩ := Highlighter.stillUnpainted_stop hq hholds.ordered
    refine ⟨?_, hordered, hstop ▸ hholds.inside⟩
    exact congrArg Frame.isDisabled (w.session.highlighter.frame_apply r o)

theorem Paints.settle (hp : w.Paints begun []) (n : Nat) : (w.settle n).Paints begun [] := by
  have hbare : ∀ i, (w.settle n).Bare i → w.Bare i := by
    rintro i ⟨hon, hinside, hunpainted, hkept⟩
    have hunpainted : painted w.session w.display i = false := hunpainted
    refine ⟨hon, hinside, hunpainted, ?_⟩
    simpa [Host.settle, hunpainted] using hkept
  refine ⟨(hp.working.settle n).mono fun i hi => ⟨hi.1, hbare i hi.2.1, hi.2.2⟩, ?_, hp.held,
    fun hbegun i hi => hp.marked hbegun i (hbare i hi)⟩
  exact ⟨hp.mirrors.canonical, hp.mirrors.within, hp.mirrors.off, hp.mirrors.captures⟩

/-! ### Actions -/

/-- A byte that is bare in the middle of an action was bare before, or is inserted, or the action
parses the whole text. -/
theorem Mirrors.bare_of_stage (hm : w.Mirrors) {clock : Clock} {a : Action E}
    (hfits : (w.session.stage clock a).session.document.length < wordSize) {i : Nat}
    (hi : (w.stage clock a).Bare i) (hrebuilds : w.session.rebuilds a = false) :
    followed (w.session.editMade a) True w.Bare i := by
  obtain ⟨hon, hinside, hunpainted, hkept⟩ := hi
  have hwas : w.session.highlighter.isDisabled = false :=
    (Session.isDisabled_of_stage hon).resolve_right fun h => (by cases h.symm.trans hrebuilds)
  have hkept : followed (w.session.editMade a) false w.dropped i = false := hkept
  rcases w.session.stage_document clock a with ⟨e, hmade, hedit⟩ | ⟨hmade, hdocument⟩
  · have htheme := Session.theme_of_stage hwas (Session.quiet_of_editMade hmade).2 clock
    rw [hmade] at hkept ⊢
    simp only [followed, Option.elim_some] at hkept ⊢
    cases hij : e.origin i with
    | none =>
      rw [TextEdit.splice_of_inserted hij]
      trivial
    | some j =>
      have hj : j < w.session.document.length :=
        (hedit.sound hfits).origin_lt hij (hedit.length.2.2.2 ▸ hinside)
      have hcapture := (hm.edited clock hmade hedit hfits).2.2 i
      have hshown := stage_shown_edited (w := w) clock hmade i
      rw [TextEdit.splice_of_origin hij] at hkept hcapture hshown ⊢
      exact ⟨hwas, hj, (painted_congr htheme hcapture hshown).symm.trans hunpainted, hkept⟩
  · have hsame := (w.stage_spans_unedited clock hmade).resolve_right fun hnone =>
      (by cases hon.symm.trans hnone.2.2)
    have hinside : i < w.session.document.length := hdocument ▸ hinside
    have hshown := stage_shown_unedited clock hmade (hsame ▸ hm.canonical) hinside
    simp only at hshown
    have hquiet : w.session.repaintsAll a = false := by
      refine (Bool.not_eq_true _).mp fun hall => ?_
      rw [if_pos hall] at hshown
      cases hunpainted.symm.trans (painted_of_shown (congrArg Prod.snd hshown))
    have htheme := Session.theme_of_stage hwas hquiet clock
    rw [if_neg (by rw [hquiet]; simp)] at hshown
    rw [hmade] at hkept ⊢
    exact ⟨hwas, hinside, (painted_congr htheme (congrArg (captureAt · i) hsame) hshown).symm.trans
      hunpainted, hkept⟩

theorem Paints.stage_held (hp : w.Paints begun []) (clock : Clock) (a : Action E)
    (hfits : (w.session.stage clock a).session.document.length < wordSize) :
    ∀ u, (w.session.stage clock a).session.highlighter.unpainted = some u →
      (w.session.stage clock a).session.highlighter.isDisabled = false ∧
        (w.session.stage clock a).session.document.Holds u := by
  have hframe := w.session.stage_frame clock a
  generalize hf : (w.session.stage clock a).session.highlighter.frame = f at hframe
  intro u hu
  have hu : f.unpainted = some u := (congrArg Frame.unpainted hf).symm.trans hu
  rw [show (w.session.stage clock a).session.highlighter.isDisabled = f.isDisabled from
    congrArg Frame.isDisabled hf]
  cases hframe with
  | kept hmade =>
    rw [Session.document_of_unedited hmade clock]
    exact hp.held u hu
  | edited hmade hon =>
    exact ⟨hon, Highlighter.placed_unpaintedAfter (placement_holds E)
      (Session.edits_of_made hmade clock) hfits (fun q hq => (hp.held q hq).2) hu⟩
  | ignored _ hoff => cases hoff.symm.trans (hp.held u hu).1
  | themed ha =>
    rw [Session.document_of_unedited (ha ▸ rfl) clock]
    exact hp.held u hu
  | rebuilt hmade =>
    cases hu
    rw [Session.document_of_unedited hmade clock]
    exact ⟨rfl, Nat.zero_le _, Nat.le_refl _⟩
  | disabled => cases hu

/-- In the middle of an action, what was unpainted is so still, moved along, with what is inserted,
or the whole text is if it is parsed. -/
theorem Paints.stage_unpainted (hp : w.Paints begun []) (clock : Clock) (a : Action E)
    (hfits : (w.session.stage clock a).session.document.length < wordSize)
    (hon : (w.session.stage clock a).session.highlighter.isDisabled = false) {i : Nat}
    (hi : i < (w.session.stage clock a).session.document.length)
    (hwas : w.session.rebuilds a = false → followed (w.session.editMade a) True
      (fun j => w.session.highlighter.unpainted.any (·.contains j) = true) i) :
    (w.session.stage clock a).session.highlighter.unpainted.any (·.contains i) = true := by
  have hframe := w.session.stage_frame clock a
  generalize hf : (w.session.stage clock a).session.highlighter.frame = f at hframe
  have hon : f.isDisabled = false := (congrArg Frame.isDisabled hf).symm.trans hon
  rw [show (w.session.stage clock a).session.highlighter.unpainted = f.unpainted from
    congrArg Frame.unpainted hf]
  cases hframe with
  | kept hmade hrebuilds =>
    have hwas := hwas hrebuilds
    rw [hmade] at hwas
    exact hwas
  | edited hmade =>
    have hwas := hwas (Session.quiet_of_editMade hmade).1
    rw [hmade] at hwas
    have hedit := Session.edits_of_made hmade clock
    exact Highlighter.any_unpaintedAfter (hedit.sound hfits)
      (fun u hu => (hp.held u hu).2.inside) hwas
  | ignored _ hoff => cases hoff.symm.trans hon
  | themed ha =>
    subst ha
    exact hwas rfl
  | rebuilt hmade =>
    rw [Session.document_of_unedited hmade clock] at hi
    exact ByteRange.contains_iff.mpr ⟨Nat.zero_le i, hi⟩
  | disabled => cases hon

theorem Paints.stage (hE : E.AlignsCaptures) (hE' : E.OrdersDifferences) (hp : w.Paints begun [])
    (clock : Clock) (a : Action E)
    (hfits : (w.session.stage clock a).session.document.length < wordSize) :
    (w.stage clock a).Paints (begun ∨ w.session.rebuilds a = true)
      (w.session.stage clock a).answers := by
  have hbegun : begun ∨ w.session.rebuilds a = true → w.session.rebuilds a = false → begun :=
    fun hbegun hkeeps => hbegun.resolve_right fun hall => (by cases hall.symm.trans hkeeps)
  refine ⟨hp.working.stage (placement_takes hE) hE' clock a hfits ?_ ?_,
    hp.mirrors.stage clock a hfits, hp.stage_held clock a hfits, fun hb i hi => ?_⟩
  · rintro i ⟨hb, hi, hlate⟩
    simp only [Host.stage, Bool.or_eq_false_iff] at hlate
    refine ⟨hi.inside, hlate.2, ?_⟩
    by_cases hrebuilds : w.session.rebuilds a = true
    · refine .inr ⟨_, Session.wholeText_mem_renewed hrebuilds, ?_⟩
      exact ByteRange.contains_iff.mpr
        ⟨Nat.zero_le i, Session.document_of_rebuilds hrebuilds clock ▸ hi.inside⟩
    · have hrebuilds := (Bool.not_eq_true _).mp hrebuilds
      have hbare := hp.mirrors.bare_of_stage hfits hi hrebuilds
      have hlate := hlate.1
      cases hmade : w.session.editMade a with
      | none =>
        rw [hmade] at hbare hlate
        exact .inl ⟨hbegun hb hrebuilds, hbare, hlate⟩
      | some e =>
        rw [hmade] at hbare hlate
        simp only [followed, Option.elim_some] at hbare hlate ⊢
        cases hij : e.origin i with
        | none =>
          exact .inr ⟨_, Session.newRange_mem_renewed clock hmade, TextEdit.contains_newRange hij⟩
        | some j =>
          rw [TextEdit.splice_of_origin hij] at hbare hlate ⊢
          exact .inl ⟨hbegun hb hrebuilds, hbare, hlate⟩
  · rintro rfl - i ⟨hb, hi, hlate⟩
    simp only [Host.stage, Bool.or_eq_false_iff] at hlate
    exact ⟨hbegun hb rfl, hp.mirrors.bare_of_stage hfits hi rfl, hlate.1⟩
  · refine hp.stage_unpainted clock a hfits hi.on hi.inside fun hrebuilds => ?_
    have hmarked := hp.marked (hbegun hb hrebuilds)
    have hbare := hp.mirrors.bare_of_stage hfits hi hrebuilds
    cases hmade : w.session.editMade a with
    | none =>
      rw [hmade] at hbare
      exact hmarked i hbare
    | some e =>
      rw [hmade] at hbare
      simp only [followed, Option.elim_some] at hbare ⊢
      cases hij : e.origin i with
      | none =>
        rw [TextEdit.splice_of_inserted hij]
        trivial
      | some j =>
        rw [TextEdit.splice_of_origin hij] at hbare ⊢
        exact hmarked j hbare

theorem Paints.step (hE : E.AlignsCaptures) (hE' : E.OrdersDifferences) (hp : w.Paints begun [])
    (clock : Clock) (a : Action E)
    (hfits : (w.step clock a).session.document.length < wordSize) :
    (w.step clock a).Paints (begun ∨ w.session.rebuilds a = true) [] := by
  rw [w.step_document] at hfits
  exact step_induction (motive := fun answers v =>
      v.Paints (begun ∨ w.session.rebuilds a = true) answers)
    (hp.stage hE hE' clock a hfits) (fun _ _ _ _ hp => hp.take hE) fun _ n hp => hp.settle n

theorem unpainted_of_dropped (clock : Clock) (a : Action E) {i : Nat}
    (hi : (w.step clock a).dropped i = true) :
    painted (w.step clock a).session (w.step clock a).display i = false := by
  simp only [Host.step, Bool.and_eq_true, Bool.not_eq_true'] at hi
  exact hi.2

/-- What is painted when the work is done. In every enabled state without pending work that a run
reaches once a language is set, a byte shows the attributes of its capture in the theme, unless an
answer took it off the unpainted text without covering it, or idle work took its range early. So all
of the text is painted exactly if no byte was taken off so, and those of early ranges are painted;
and, if queries are not made in the background, exactly if no byte was taken off so. -/
theorem painted_when_quiet (hE : E.AlignsCaptures) (hE' : E.OrdersDifferences) (config : Config)
    (theme : Theme) (d₀ : Document) (clock : Clock) (g : Grammar E)
    (steps : List (Clock × Action E))
    (hfits : (opened config theme d₀).Fits ((clock, .setLanguage g) :: steps)) :
    let w := (opened config theme d₀).run ((clock, .setLanguage g) :: steps)
    let d := w.session.document
    w.session.highlighter.isDisabled = false → w.session.highlighter.hasPendingWork = false →
      (∀ i, i < d.length → w.dropped i = false → w.early i = false →
        painted w.session w.display i = true) ∧
      ((∀ i, i < d.length → painted w.session w.display i = true) ↔
        ∀ i, i < d.length → w.dropped i = false ∧
          (w.early i = true → painted w.session w.display i = true)) ∧
      (config.backgroundQueries = false →
        ((∀ i, i < d.length → painted w.session w.display i = true) ↔
          ∀ i, i < d.length → w.dropped i = false)) := by
  intro w d hon hquiet
  have hstart : ((opened config theme d₀).step clock (.setLanguage g)).Paints True [] := by
    have hstep := (paints_opened config theme d₀).step hE hE' clock (.setLanguage g) hfits.2.head
    have hbegun : False ∨ (opened config theme d₀).session.rebuilds (.setLanguage g) = true :=
      .inr rfl
    rwa [eq_true hbegun] at hstep
  have hrun := run_induction hfits.2 (motive := fun w => w.Paints True [] ∧
      ∀ i, w.dropped i = true → painted w.session w.display i = false)
    ⟨hstart, fun i => unpainted_of_dropped clock (.setLanguage g)⟩
    fun w clock a _ hfits ⟨hp, _⟩ => by
      have hstep := hp.step hE hE' clock a hfits
      rw [true_or] at hstep
      exact ⟨hstep, fun i => unpainted_of_dropped clock a⟩
  obtain ⟨hp, hdropped⟩ := hrun
  have hpainted : ∀ i, i < d.length → w.dropped i = false → w.early i = false →
      painted w.session w.display i = true := by
    intro i hi hkept hlate
    refine Decidable.byContradiction fun hbare => ?_
    exact hp.working.owes.quiet strict_takes hon hquiet i
      ⟨trivial, ⟨hon, hi, (Bool.not_eq_true _).mp hbare, hkept⟩, hlate⟩
  have hkept : (∀ i, i < d.length → painted w.session w.display i = true) →
      ∀ i, i < d.length → w.dropped i = false := by
    intro hall i hi
    refine (Bool.not_eq_true _).mp fun hlost => ?_
    cases (hall i hi).symm.trans (hdropped i hlost)
  refine ⟨hpainted, ⟨fun hall i hi => ⟨hkept hall i hi, fun _ => hall i hi⟩, fun hall i hi => ?_⟩,
    fun hinline => ⟨hkept, fun hall i hi => hpainted i hi (hall i hi) ?_⟩⟩
  · obtain ⟨hkept, hearly⟩ := hall i hi
    cases hlate : w.early i with
    | false => exact hpainted i hi hkept hlate
    | true => exact hearly hlate
  · exact early_of_inline theme d₀ hinline hfits i

/-- A whole text is painted; and of two rows the end of the first one is not, if the second is
edited before the first is done. -/
theorem painted_when_quiet_rows :
    let w := (opened {} (.plain "plain") Commas.pair).run Commas.pairSteps
    let v := (opened { queryBudgetMicros := 0 } (.plain "plain") Commas.rows).run Commas.rowSteps
    (∀ i, i < w.session.document.length → painted w.session w.display i = true) ∧
      v.session.highlighter.isDisabled = false ∧ v.session.highlighter.hasPendingWork = false ∧
        ¬ ∀ i, i < v.session.document.length → painted v.session v.display i = true := by
  have hpair := painted_when_quiet Commas.alignsCaptures Commas.ordersDifferences {}
    (.plain "plain") Commas.pair .steady (Commas.grammar "punctuation.delimiter")
    Commas.pairSteps.tail Commas.pair_fits (by decide +kernel) (by decide +kernel)
  have hrows := painted_when_quiet Commas.alignsCaptures Commas.ordersDifferences
    { queryBudgetMicros := 0 } (.plain "plain") Commas.rows .steady (Commas.grammar "unknown")
    Commas.rowSteps.tail Commas.rows_fit (by decide +kernel) (by decide +kernel)
  refine ⟨(hpair.2.2 rfl).mpr ?_, ?_, ?_, fun hall => ?_⟩
  · decide +kernel
  · decide +kernel
  · decide +kernel
  · have hkept := (hrows.2.2 rfl).mp hall 128 (by decide +kernel)
    revert hkept
    decide +kernel

end Host

end LiveHighlight
