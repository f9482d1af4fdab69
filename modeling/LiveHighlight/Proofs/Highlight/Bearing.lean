import LiveHighlight.Proofs.Host

/-! What nothing but another language changes of a highlighter: its grammar, whether that failed to
load, the limits of its queries and whether it has a worker. After a run the grammar is that of the
language set last. -/

namespace LiveHighlight

variable {E : SyntaxEngine}

/-- The grammar for use in a parser; none if it has no parser or does not load. -/
def Grammar.loaded (g : Grammar E) : Option (LoadedGrammar E) :=
  match g.load with
  | .ok loaded => loaded
  | .error _ => none

/-- The grammar's name, if it does not load. -/
def Grammar.failed (g : Grammar E) : Option String :=
  match g.load with
  | .ok _ => none
  | .error _ => some g.id

/-- What of a highlighter nothing but another language changes. -/
structure Bearing (E : SyntaxEngine) where
  grammar : Option (LoadedGrammar E)
  grammarId : String
  degraded : Option String
  limits : QueryBounds
  hasWorker : Bool

namespace Bearing

/-- The bearing of a highlighter with another parser. -/
def of (h : Highlighter E) (p : DocumentParser E) : Bearing E :=
  ⟨p.grammar, p.grammarId, h.degraded, p.limits, h.worker.isSome⟩

/-- The bearing after a language is set. -/
def under (b : Bearing E) (g : Grammar E) : Bearing E :=
  { b with grammar := g.loaded, grammarId := g.id, degraded := g.failed }

theorem of_reparse (h : Highlighter E) (p : DocumentParser E) (clock : Clock) (d : Document) :
    of h (p.reparse clock d).1 = of h p := by
  unfold DocumentParser.reparse
  split
  · rfl
  · simp only
    split
    · rfl
    · rfl

theorem of_applyEdit (h : Highlighter E) (p : DocumentParser E) (e : TextEdit) :
    of h (p.applyEdit e) = of h p := by
  unfold DocumentParser.applyEdit
  split <;> rfl

theorem of_queryFollowing (h : Highlighter E) (p : DocumentParser E) (clock : Clock)
    (r : ByteRange) (d : Document) : of h (p.queryFollowing clock r d).1 = of h p := by
  have hreparse := of_reparse h p clock d
  unfold DocumentParser.queryFollowing DocumentParser.queryWith
  split
  · rfl
  · split
    · rfl
    · generalize hparse : (if p.tree.isNone then p.reparse clock d else (p, .ok [])) = result
      have hresult : of h result.1 = of h p := by
        rw [← hparse]
        split
        · exact hreparse
        · rfl
      obtain ⟨p', parsed⟩ := result
      cases parsed with
      | error failure => exact hresult
      | ok ranges =>
        simp only
        cases p'.target <;> exact hresult

end Bearing

namespace Highlighter

variable {h : Highlighter E}

def bearing (h : Highlighter E) : Bearing E := .of h h.parser

theorem bearing_ask (h : Highlighter E) (clock : Clock) (r : ByteRange) (d : Document) :
    (h.ask clock r d).highlighter.bearing = h.bearing := by
  have hquery := Bearing.of_queryFollowing h h.parser clock r d
  unfold ask
  simp only
  split
  · rename_i w target hw _
    exact congrArg (Bearing.mk _ _ _ _) (by rw [hw]; rfl)
  · generalize h.parser.queryFollowing clock r d = result at hquery
    obtain ⟨p, found⟩ := result
    cases found <;> exact hquery

theorem bearing_rebuild (h : Highlighter E) (clock : Clock) (d : Document) :
    (h.rebuild clock d).highlighter.bearing = h.bearing := by
  have hparse := Bearing.of_reparse h (h.startOver d).parser clock d
  unfold rebuild
  simp only
  generalize (h.startOver d).parser.reparse clock d = result at hparse
  obtain ⟨p, parsed⟩ := result
  cases parsed with
  | ok ranges => exact (bearing_ask _ clock _ d).trans hparse
  | error failure => exact hparse

theorem bearing_askChanged (h : Highlighter E) (clock : Clock) (e : TextEdit) (d : Document) :
    (h.askChanged clock e d).highlighter.bearing = h.bearing := by
  have hparse := (Bearing.of_reparse h (h.moveAlong e).parser clock d).trans
    (Bearing.of_applyEdit h h.parser e)
  unfold askChanged
  split
  · rfl
  · simp only
    generalize (h.moveAlong e).parser.reparse clock d = result at hparse
    obtain ⟨p, parsed⟩ := result
    cases parsed with
    | ok ranges => exact (bearing_ask _ clock _ d).trans hparse
    | error failure => exact hparse

theorem bearing_askIdle (h : Highlighter E) (clock : Clock) (d : Document) :
    (h.askIdle clock d).highlighter.bearing = h.bearing := by
  have hparse := Bearing.of_reparse h h.parser clock d
  unfold askIdle
  split
  · rfl
  · split
    · simp only
      generalize h.parser.reparse clock d = result at hparse
      obtain ⟨p, parsed⟩ := result
      cases parsed with
      | ok ranges => exact (bearing_ask _ clock _ d).trans hparse
      | error failure => exact hparse
    · split
      · rfl
      · cases h.cursors.byProximity d h.deferred with
        | nil => rfl
        | cons next others => exact bearing_ask _ clock next d

theorem bearing_load (h : Highlighter E) (g : Grammar E) :
    (h.load g).bearing = h.bearing.under g := by
  simp only [bearing, Bearing.of, Bearing.under, Grammar.loaded, Grammar.failed, load,
    DocumentParser.setLanguage]
  cases g.load <;> rfl

theorem bearing_askLanguage (h : Highlighter E) (clock : Clock) (g : Grammar E) (d : Document) :
    (h.askLanguage clock g d).highlighter.bearing = h.bearing.under g := by
  rw [← bearing_load]
  unfold askLanguage
  split
  · rfl
  · exact bearing_rebuild _ clock d

theorem bearing_askEnabled (h : Highlighter E) (clock : Clock) (d : Document) :
    (h.askEnabled clock d).highlighter.bearing = h.bearing := by
  unfold askEnabled
  split
  · exact bearing_rebuild { h with state := .idle } clock d
  · rfl

theorem bearing_applyAll (h : Highlighter E) (answers : List (ByteRange × QueryAnswer)) :
    (h.applyAll answers).1.bearing = h.bearing := by
  induction answers generalizing h with
  | nil => rfl
  | cons answer rest ih =>
    obtain ⟨stats, happly⟩ := h.apply_fst answer.1 answer.2
    exact (ih _).trans (by rw [happly]; rfl)

theorem worker_create {config : Config} (hinline : config.backgroundQueries = false)
    (theme : Theme) : (create config theme : Highlighter E).worker = none := by
  rw [create, hinline]
  rfl

end Highlighter

/-- The language that an action sets. -/
def Action.language : Action E → Option (Grammar E)
  | .setLanguage g => some g
  | _ => none

/-- The language that a run sets last. -/
def lastLanguage (steps : List (Clock × Action E)) : Option (Grammar E) :=
  (steps.filterMap (·.2.language)).getLast?

namespace Session

theorem bearing_stage (s : Session E) (clock : Clock) (a : Action E) :
    (s.stage clock a).session.highlighter.bearing =
      a.language.elim s.highlighter.bearing s.highlighter.bearing.under := by
  cases a with
  | edit r text =>
    rcases s.stage_edit clock r text with ⟨e, d, -, -, hstage⟩ | ⟨-, hstage⟩
    · rw [hstage]
      exact s.highlighter.bearing_askChanged clock e d
    · rw [hstage]
      rfl
  | setLanguage g => exact s.highlighter.bearing_askLanguage clock g s.document
  | enable => exact s.highlighter.bearing_askEnabled clock s.document
  | idle => exact s.highlighter.bearing_askIdle clock s.document
  | setTheme theme =>
    simp only [stage, Highlighter.setTheme]
    split <;> rfl
  | disable =>
    simp only [stage, Highlighter.disable]
    split <;> rfl
  | poll =>
    simp only [stage]
    split
    · exact congrArg (Bearing.mk _ _ _ _) Option.isSome_map
    · rfl
  | work m => exact congrArg (Bearing.mk _ _ _ _) Option.isSome_map
  | setCursors positions => rfl
  | setParseTimeout micros => rfl

theorem bearing_step (s : Session E) (clock : Clock) (a : Action E) :
    (s.step clock a).1.highlighter.bearing =
      a.language.elim s.highlighter.bearing s.highlighter.bearing.under := by
  rw [step_eq]
  exact (Highlighter.bearing_applyAll _ _).trans (s.bearing_stage clock a)

/-- After a run a highlighter goes by the language that was set last. -/
theorem bearing_run (s : Session E) (steps : List (Clock × Action E)) :
    (s.run steps).highlighter.bearing =
      (lastLanguage steps).elim s.highlighter.bearing s.highlighter.bearing.under := by
  induction steps generalizing s with
  | nil => rfl
  | cons step steps ih =>
    have hstep := s.bearing_step step.1 step.2
    refine (ih _).trans ?_
    rw [hstep, lastLanguage, lastLanguage, List.filterMap_cons]
    cases step.2.language with
    | none => rfl
    | some g =>
      rw [List.getLast?_cons]
      cases (steps.filterMap (·.2.language)).getLast? <;> rfl

theorem limits_run (s : Session E) (steps : List (Clock × Action E)) :
    (s.run steps).highlighter.parser.limits = s.highlighter.parser.limits := by
  refine (congrArg Bearing.limits (s.bearing_run steps)).trans ?_
  cases lastLanguage steps <;> rfl

/-- Without a worker there never will be one. -/
theorem worker_run {s : Session E} (hnone : s.highlighter.worker = none)
    (steps : List (Clock × Action E)) : (s.run steps).highlighter.worker = none := by
  have hkept : (s.run steps).highlighter.worker.isSome = s.highlighter.worker.isSome := by
    refine (congrArg Bearing.hasWorker (s.bearing_run steps)).trans ?_
    cases lastLanguage steps <;> rfl
  rw [hnone] at hkept
  exact Option.isNone_iff_eq_none.mp (Option.isSome_eq_false_iff.mp hkept)

end Session

namespace Host

theorem run_session (w : Host E) (steps : List (Clock × Action E)) :
    (w.run steps).session = w.session.run steps := by
  induction steps generalizing w with
  | nil => rfl
  | cons step steps ih => exact ih _

end Host

end LiveHighlight
