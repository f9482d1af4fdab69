import LiveHighlight.Proofs.Highlight.Bearing
import LiveHighlight.Proofs.Highlight.Mirror

/-! A rebuild starts from nothing but the text and the language. Whatever came before it, it leaves
a highlighter as a new one of the same text and language would be. -/

namespace LiveHighlight

open Spans

variable {E : SyntaxEngine}

/-! ### A query of the whole text -/

/-- The spans of a text highlighted in one go. -/
def Grammar.painting (g : Grammar E) (d : Document) : List Span :=
  g.loaded.elim [] fun l => overlay ((E.captures l.query.query (E.parse l.language d.chars) d.chars
    (Highlighter.wholeText d)).filterMap l.query.raw) (Highlighter.wholeText d)

namespace CompiledQuery

variable {q : CompiledQuery E} {tree : E.Tree} {d : Document} {limits : QueryBounds}

/-- There is nothing past the end of the text that a query could be extended to. -/
theorem runFollowing_wholeText (clock : Clock) :
    q.runFollowing tree d (Highlighter.wholeText d) limits clock =
      q.run tree d (Highlighter.wholeText d) limits (clock.querying 0) := by
  unfold runFollowing
  simp only
  split
  · rfl
  · refine if_pos (Document.le_length_of_isValid ?_)
    simp [extendedEnd]

end CompiledQuery

/-- A clock under which neither a parse of a text nor a query of all of it is cut short. -/
structure Clock.Spares (clock : Clock) (p : DocumentParser E) (g : Grammar E) (d : Document) :
    Prop where
  parse : ∀ l, g.loaded = some l → p.pauses clock (Utf8.byteLength d.chars) = false
  query : ∀ l, g.loaded = some l → (l.query.taken (E.parse l.language d.chars) d
    (Highlighter.wholeText d) p.limits (clock.querying 0)).2 = none

theorem Clock.Spares.congr {clock : Clock} {p p' : DocumentParser E} {g : Grammar E}
    {d : Document} (h : clock.Spares p g d) (hconfig : p'.config = p.config) :
    clock.Spares p' g d where
  parse l hl := by
    rw [← h.parse l hl, DocumentParser.pauses, DocumentParser.pauses, hconfig]
  query l hl := by
    rw [← h.query l hl, DocumentParser.limits, DocumentParser.limits, hconfig]

/-! ### What a rebuild leaves -/

/-- What of a highlighter its text and its language should settle. -/
structure Slate (E : SyntaxEngine) where
  spans : List Span
  state : HighlightPhase
  deferred : List ByteRange
  unpainted : Option ByteRange
  reparsePending : Bool
  degraded : Option String
  lastRehighlight : Option ByteRange
  grammar : Option (LoadedGrammar E)
  grammarId : String
  tree : Option E.Tree
  dirty : Bool
  pendingEdits : List ByteRange
  paused : Option (PausedParse E)

/-- All done, with the spans of the whole text. -/
def Slate.clean (g : Grammar E) (d : Document) : Slate E where
  spans := g.painting d
  state := .idle
  deferred := []
  unpainted := none
  reparsePending := false
  degraded := g.failed
  lastRehighlight := some (Highlighter.wholeText d)
  grammar := g.loaded
  grammarId := g.id
  tree := g.loaded.map fun l => E.parse l.language d.chars
  dirty := false
  pendingEdits := []
  paused := none

namespace DocumentParser

variable {p : DocumentParser E} {d : Document} {g : Grammar E}

/-- A parse from scratch of a text. Without a grammar there is nothing to parse. -/
theorem reparse_invalidate (p : DocumentParser E) (hgrammar : p.grammar = g.loaded) {clock : Clock}
    (hspares : ∀ l, g.loaded = some l → p.pauses clock (Utf8.byteLength d.chars) = false) :
    ∃ stats ranges, p.invalidate.reparse clock d =
        ({ p.invalidate with tree := g.loaded.map fun l => E.parse l.language d.chars, stats },
          .ok ranges) ∧
      stats.fullParses = p.stats.fullParses + (if g.loaded.isSome then 1 else 0) ∧
      stats.incrementalParses = p.stats.incrementalParses := by
  unfold reparse
  simp only [invalidate, hgrammar, Option.getD_none]
  cases hloaded : g.loaded with
  | none => exact ⟨p.stats, [], rfl, rfl, rfl⟩
  | some l =>
    have hgoes := hspares l hloaded
    unfold pauses at hgoes ⊢
    simp only [hgoes]
    exact ⟨_, _, rfl, rfl, rfl⟩

/-- A query of the whole text, with the tree at hand, that no budget stops. -/
theorem queryFollowing_wholeText (hgrammar : p.grammar = g.loaded)
    (htree : p.tree = g.loaded.map fun l => E.parse l.language d.chars) {clock : Clock}
    (hspares : ∀ l, g.loaded = some l → (l.query.taken (E.parse l.language d.chars) d
      (Highlighter.wholeText d) p.limits (clock.querying 0)).2 = none) :
    ∃ stats answer, p.queryFollowing clock (Highlighter.wholeText d) d =
        ({ p with stats }, .ok answer) ∧
      answer.covered = Highlighter.wholeText d ∧ answer.spans = g.painting d ∧
      stats.fullParses = p.stats.fullParses ∧
      stats.incrementalParses = p.stats.incrementalParses := by
  have hrange := Document.requireRange_eq_ok.mpr (Highlighter.takes_wholeText d)
  unfold queryFollowing queryWith Grammar.painting
  cases hloaded : g.loaded with
  | none =>
    rw [hloaded] at hgrammar
    simp only [hrange]
    rw [if_pos (by rw [hgrammar]; rfl)]
    exact ⟨p.stats, .nothing (Highlighter.wholeText d), rfl, rfl, rfl, rfl, rfl⟩
  | some l =>
    rw [hloaded] at hgrammar htree
    obtain ⟨hcovered, hspans⟩ := CompiledQuery.run_unstopped (hspares l hloaded)
    have htarget : p.target = some ⟨E.parse l.language d.chars, l.query⟩ := by
      rw [target, htree, hgrammar]
      rfl
    have hsome : ¬ p.grammar.isNone = true := by simp [hgrammar]
    simp only [hrange, hsome, htree, Option.map_some, Option.isNone_some, Bool.false_eq_true,
      if_false, htarget, CompiledQuery.runFollowing_wholeText]
    refine ⟨_, _, rfl, hcovered, hspans, ?_, ?_⟩
    · split <;> rfl
    · split <;> rfl

end DocumentParser

namespace Highlighter

variable {h : Highlighter E} {b : Bearing E} {d : Document} {g : Grammar E}

def slate (h : Highlighter E) : Slate E where
  spans := h.spans
  state := h.state
  deferred := h.deferred
  unpainted := h.unpainted
  reparsePending := h.reparsePending
  degraded := h.degraded
  lastRehighlight := h.lastRehighlight
  grammar := h.parser.grammar
  grammarId := h.parser.grammarId
  tree := h.parser.tree
  dirty := h.parser.dirty
  pendingEdits := h.parser.pendingEdits
  paused := h.parser.paused

/-- An answer for the whole text replaces all spans and repaints all of the text. -/
theorem apply_wholeText {o : QueryAnswer} (hc : Canonical h.spans)
    (hin : Within (wholeText d) h.spans) (hunpainted : h.unpainted = some (wholeText d))
    (hcovered : o.covered = wholeText d) (hnew : Canonical o.spans)
    (hwithin : Within (wholeText d) o.spans) :
    h.apply (wholeText d) o =
      ({ h with spans := o.spans, unpainted := none, state := .idle } : Highlighter E).emit
        (wholeText d) := by
  have hordered : (wholeText d).start ≤ (wholeText d).stop := Nat.zero_le _
  have hforced : h.unpainted.bind (paintable o.covered) = some (wholeText d) := by
    simp [hunpainted, hcovered, paintable, wholeText]
  have hrepainted : h.repaintedBy o = some (wholeText d) := by
    have hdiffers := hc.sorted.changes_differs hnew.sorted hordered
    unfold repaintedBy
    simp only [hforced]
    rw [hcovered]
    cases hchanges : changes h.spans o.spans (wholeText d) with
    | none => rfl
    | some changed =>
      have := (hdiffers.placed changed hchanges).2.2
      simp only [ByteRange.hullWith, ByteRange.hull, wholeText, Option.some.injEq,
        ByteRange.eq_iff] at this ⊢
      omega
  have hspans : overwrite h.spans (wholeText d) o.spans = o.spans := by
    refine (hc.overwrite hordered hnew.ordered hwithin).ext hnew fun i => ?_
    rw [hc.captureAt_overwrite hordered hnew.ordered hwithin]
    split
    · rfl
    · rename_i hout
      rw [ByteRange.contains_iff] at hout
      rw [hin.captureAt_eq_none hout, hwithin.captureAt_eq_none hout]
  have habsorb : h.absorb (wholeText d) o =
      { h with spans := o.spans, unpainted := none, state := .idle } := by
    simp [absorb, postponed, stillUnpainted, paintable, hcovered, hspans, hunpainted]
  rw [apply, hrepainted, habsorb]

/-- What a rebuild does to a highlighter. -/
structure Rebuilt (before : Highlighter E) (g : Grammar E) (d : Document)
    (done : Highlighter E × List Repaint) : Prop where
  updates : ∃ runs, done.2 = [⟨wholeText d, runs⟩]
  fullParses : done.1.stats.fullParses =
    before.stats.fullParses + if g.loaded.isSome then 1 else 0
  incrementalParses : done.1.stats.incrementalParses = before.stats.incrementalParses
  slate : done.1.slate = .clean g d

/-- A rebuild that is not cut short has all but its answer behind it when it takes that in. -/
theorem rebuild_spared (hinline : h.worker = none) (hbearing : h.bearing = b.under g)
    {clock : Clock} (hspares : clock.Spares h.parser g d) :
    ∃ asked answer, h.rebuild clock d = ⟨asked, some (wholeText d, answer)⟩ ∧
      answer.covered = wholeText d ∧ answer.spans = g.painting d ∧
      asked.spans = h.spans ∧ asked.unpainted = some (wholeText d) ∧
      { asked.slate with spans := g.painting d, unpainted := none, state := .idle } =
        Slate.clean g d ∧
      asked.stats.fullParses = h.stats.fullParses + (if g.loaded.isSome then 1 else 0) ∧
      asked.stats.incrementalParses = h.stats.incrementalParses := by
  have hgrammar : h.parser.grammar = g.loaded := congrArg Bearing.grammar hbearing
  have hid : h.parser.grammarId = g.id := congrArg Bearing.grammarId hbearing
  have hdegraded : h.degraded = g.failed := congrArg Bearing.degraded hbearing
  obtain ⟨stats, ranges, hparse, hfull, hincremental⟩ :=
    h.parser.reparse_invalidate hgrammar hspares.parse
  obtain ⟨stats', answer, hquery, hcovered, hspans, hfull', hincremental'⟩ :=
    DocumentParser.queryFollowing_wholeText
      (p := { h.parser.invalidate with
        tree := g.loaded.map fun l => E.parse l.language d.chars, stats })
      hgrammar rfl hspares.query
  have hrebuild : h.rebuild clock d =
      ⟨{ h.startOver d with
          worker := none
          lastRehighlight := some (wholeText d)
          parser := { h.parser.invalidate with
            tree := g.loaded.map fun l => E.parse l.language d.chars
            stats := stats' } }, some (wholeText d, answer)⟩ := by
    unfold rebuild
    simp only [startOver, hparse, ask, hinline, hquery]
  refine ⟨_, answer, hrebuild, hcovered, hspans, rfl, rfl, ?_, hfull'.trans hfull,
    hincremental'.trans hincremental⟩
  simp only [slate, Slate.clean, startOver, DocumentParser.invalidate, hgrammar, hid, hdegraded]

theorem rebuilt_take (hinline : h.worker = none) (hc : Canonical h.spans)
    (hin : Within (wholeText d) h.spans) (hbearing : h.bearing = b.under g) {clock : Clock}
    (hspares : clock.Spares h.parser g d) : h.Rebuilt g d (h.rebuild clock d).take := by
  obtain ⟨asked, answer, hrebuild, hcovered, hspans, hkept, hunpainted, hslate, hfull,
    hincremental⟩ := rebuild_spared hinline hbearing hspares
  have hpainted : Canonical answer.spans ∧ Within (wholeText d) answer.spans := by
    rw [hspans, Grammar.painting]
    cases g.loaded with
    | none => exact ⟨.nil, fun _ ht => (List.not_mem_nil ht).elim⟩
    | some l => exact ⟨canonical_overlay _ _, within_overlay _ _⟩
  have happly := apply_wholeText (hkept ▸ hc) (hkept ▸ hin) hunpainted hcovered hpainted.1
    hpainted.2
  rw [hrebuild, Asked.take]
  simp only [happly]
  refine ⟨⟨_, rfl⟩, hfull, hincremental, ?_⟩
  rw [← hslate, ← hspans]
  rfl

end Highlighter

/-- A session whose action rebuilds it, under a language that is set then or was before. -/
theorem Session.rebuilt_step {s : Session E} {b : Bearing E} {g : Grammar E}
    (hinline : s.highlighter.worker = none) (hc : Canonical s.highlighter.spans)
    (hin : Within (Highlighter.wholeText s.document) s.highlighter.spans) {clock : Clock}
    {a : Action E} (hrebuilds : s.rebuilds a = true)
    (hbearing : a.language.elim s.highlighter.bearing s.highlighter.bearing.under = b.under g)
    (hspares : clock.Spares s.highlighter.parser g s.document) :
    s.highlighter.Rebuilt g s.document
      ((s.step clock a).1.highlighter, (s.step clock a).2) := by
  cases a with
  | setLanguage g' =>
    have hon : ¬ s.highlighter.isDisabled = true := by simpa [rebuilds] using hrebuilds
    have hload : (s.highlighter.load g').bearing = b.under g :=
      (s.highlighter.bearing_load g').trans hbearing
    obtain ⟨grammar, hparser, -⟩ := s.highlighter.parser.setLanguage_cases g'
    have hloaded : (s.highlighter.load g').parser =
        { s.highlighter.parser.invalidate with grammar, grammarId := g'.id } := hparser
    have hrebuilt := Highlighter.rebuilt_take (h := s.highlighter.load g') hinline hc hin hload
      (hspares.congr (by rw [hloaded]; rfl))
    have hstats : (s.highlighter.load g').stats = s.highlighter.stats := by
      rw [Highlighter.stats, hloaded]
      rfl
    change s.highlighter.Rebuilt g s.document (s.highlighter.askLanguage clock g' s.document).take
    rw [Highlighter.askLanguage, if_neg hon]
    exact ⟨hrebuilt.updates, hstats ▸ hrebuilt.fullParses, hstats ▸ hrebuilt.incrementalParses,
      hrebuilt.slate⟩
  | enable =>
    have hoff : s.highlighter.isDisabled = true := hrebuilds
    change s.highlighter.Rebuilt g s.document (s.highlighter.askEnabled clock s.document).take
    rw [Highlighter.askEnabled, if_pos hoff]
    have hrebuilt := Highlighter.rebuilt_take (h := { s.highlighter with state := .idle }) hinline
      hc hin hbearing hspares
    exact ⟨hrebuilt.updates, hrebuilt.fullParses, hrebuilt.incrementalParses, hrebuilt.slate⟩
  | _ => cases hrebuilds

namespace Host

/-- A rebuild erases the past. Without a worker, after every run, an action that rebuilds and is not
cut short sends one update, of the whole text, parses the text once from scratch if the language has
a parser and not at all otherwise, and leaves what a new highlighter would after setting the same
language for the same text. It is assumed that ranges in which trees differ are not reversed, and
that texts fit a machine word. -/
theorem rebuild_erases (hE : E.OrdersDifferences) (config : Config)
    (hinline : config.backgroundQueries = false) (theme : Theme) (d : Document)
    (steps : List (Clock × Action E)) (hfits : (opened config theme d).Fits steps) (clock : Clock)
    (a : Action E) (g : Grammar E) :
    let s := ((opened config theme d).run steps).session
    s.rebuilds a = true → lastLanguage (steps ++ [(clock, a)]) = some g →
    clock.Spares s.highlighter.parser g s.document →
    let done := s.step clock a
    (∃ runs, done.2 = [⟨⟨0, s.document.length⟩, runs⟩]) ∧
      done.1.highlighter.stats.fullParses =
        s.highlighter.stats.fullParses + (if g.loaded.isSome then 1 else 0) ∧
      done.1.highlighter.stats.incrementalParses = s.highlighter.stats.incrementalParses ∧
      ∀ (theme' : Theme) (clock' : Clock),
        clock'.Spares (Highlighter.create config theme' : Highlighter E).parser g s.document →
        done.1.highlighter.slate =
          ((Highlighter.create config theme').setLanguage clock' g s.document).1.slate := by
  intro s hrebuilds hlast hspares done
  have hmirrors := mirrors_run hE config theme d hfits
  have hsession : s = (Session.opened config theme d).run steps := run_session _ steps
  have hworker : s.highlighter.worker = none := by
    rw [hsession]
    exact Session.worker_run (Highlighter.worker_create hinline theme) steps
  have hbearing : a.language.elim s.highlighter.bearing s.highlighter.bearing.under =
      (Session.opened config theme d : Session E).highlighter.bearing.under g := by
    have hrun := (Session.opened config theme d).bearing_run (steps ++ [(clock, a)])
    rw [hlast, Session.run, List.foldl_append] at hrun
    rw [hsession, ← Session.bearing_step]
    exact hrun
  have hrebuilt := Session.rebuilt_step hworker hmirrors.canonical hmirrors.within hrebuilds
    hbearing hspares
  refine ⟨hrebuilt.updates, hrebuilt.fullParses, hrebuilt.incrementalParses,
    fun theme' clock' hspares' => hrebuilt.slate.trans ?_⟩
  have hnew := Session.rebuilt_step (s := ⟨s.document, .create config theme'⟩)
    (a := .setLanguage g) (Highlighter.worker_create hinline theme') .nil
    (fun _ ht => (List.not_mem_nil ht).elim) rfl rfl hspares'
  exact hnew.slate.symm

/-- Nothing is left of a paused parse, nor of an edit made while highlighting was off. -/
theorem rebuild_erases_pair :
    let s := ((opened {} (.plain "plain") Commas.pair).run Commas.offSteps).session
    let g := Commas.grammar "punctuation.delimiter"
    let done := s.step .steady .enable
    done.1.highlighter.slate = ((Highlighter.create {} (.plain "plain")).setLanguage .steady g
        s.document).1.slate ∧
      s.highlighter.stats.parseTimeouts = 1 ∧
      done.1.highlighter.spans = [⟨⟨4, 5⟩, .punctuationDelimiter⟩] := by
  intro s g done
  have hdocument : s.document = .ofString "[[34,2]" := by decide +kernel
  have hquery : ∀ (l : LoadedGrammar Commas.engine) (limits : QueryBounds),
      (l.query.taken (Commas.engine.parse l.language s.document.chars) s.document
        (Highlighter.wholeText s.document) limits (Clock.steady.querying 0)).2 = none := by
    intro l limits
    rw [hdocument]
    rfl
  have herased := rebuild_erases Commas.ordersDifferences {} rfl (.plain "plain") Commas.pair
    Commas.offSteps Commas.pair_fits_off .steady .enable g (by decide +kernel) rfl
    ⟨fun _ _ => by decide +kernel, fun l _ => hquery l _⟩
  exact ⟨herased.2.2.2 (.plain "plain") .steady ⟨fun _ _ => by decide +kernel,
    fun l _ => hquery l _⟩, by decide +kernel, by decide +kernel⟩

end Host

end LiveHighlight
