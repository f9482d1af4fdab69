import LiveHighlight.Highlight.Highlighter
import LiveHighlight.Proofs.Highlight.Answer

/-! The parser of a document in step with it. A parser may be behind the text, but its tree is the
one of the text as soon as no edit is outstanding, and what a query then answers is what a query of
that tree answers. -/

namespace LiveHighlight

/-- An answer computed from the text as it is: from its tree, or empty where no grammar is loaded.
-/
inductive QueryAnswer.Current {E : SyntaxEngine} (limits : QueryBounds) (d : Document) :
    Option (LoadedGrammar E) → ByteRange → QueryAnswer → Prop
  | plain (r : ByteRange) : Current limits d none r (.nothing r)
  | parsed (g : LoadedGrammar E) (r : ByteRange) (clock : Clock) :
      Current limits d (some g) r
        (g.query.runFollowing (E.parse g.language d.chars) d r limits clock)

theorem Grammar.load_compiled {E : SyntaxEngine} {g : Grammar E} {loaded : LoadedGrammar E}
    (h : g.load = .ok (some loaded)) : loaded.Compiled := by
  unfold Grammar.load at h
  split at h
  · cases h
  · rename_i language _
    split at h
    · rename_i query hquery
      cases h
      exact ⟨_, hquery⟩
    · cases h

namespace DocumentParser

variable {E : SyntaxEngine}

/-- The parser of a document. Where its tree has not been edited it is the tree of the text. -/
structure Tracks (p : DocumentParser E) (d : Document) : Prop where
  compiled : ∀ g, p.grammar = some g → g.Compiled
  plain : p.grammar = none → p.tree = none ∧ p.paused = none
  paused : ∀ q, p.paused = some q → q.text = d.chars
  current : ∀ g tree, p.grammar = some g → p.tree = some tree → p.dirty = false →
    tree = E.parse g.language d.chars

/-- The parser has nothing to parse. -/
def UpToDate (p : DocumentParser E) : Prop :=
  p.grammar.isSome = true → p.tree.isSome = true ∧ p.dirty = false

/-- The parser has the tree of a text. -/
structure Parsed (p : DocumentParser E) (d : Document) (g : LoadedGrammar E) : Prop where
  grammar : p.grammar = some g
  tree : p.tree = some (E.parse g.language d.chars)
  clean : p.dirty = false

variable {p : DocumentParser E} {d d' : Document}

theorem Tracks.parsed (h : p.Tracks d) (hup : p.UpToDate) {g : LoadedGrammar E}
    (hg : p.grammar = some g) : p.Parsed d g := by
  obtain ⟨htree, hclean⟩ := hup (by rw [hg]; rfl)
  obtain ⟨tree, htree⟩ := Option.isSome_iff_exists.mp htree
  exact ⟨hg, by rw [htree, h.current g tree hg htree hclean], hclean⟩

theorem Tracks.of_blank (hcompiled : ∀ g, p.grammar = some g → g.Compiled) (htree : p.tree = none)
    (hpaused : p.paused = none) : p.Tracks d where
  compiled := hcompiled
  plain _ := ⟨htree, hpaused⟩
  paused q hq := by rw [hpaused] at hq; cases hq
  current g tree _ h := by rw [htree] at h; cases h

theorem Tracks.invalidate (h : p.Tracks d) : p.invalidate.Tracks d :=
  .of_blank h.compiled rfl rfl

theorem Tracks.withStats (h : p.Tracks d) (stats : WorkStats) : { p with stats }.Tracks d :=
  ⟨h.compiled, h.plain, h.paused, h.current⟩

theorem setLanguage_cases (p : DocumentParser E) (g : Grammar E) :
    ∃ grammar, (p.setLanguage g).1 = { p.invalidate with grammar, grammarId := g.id } ∧
      ∀ loaded, grammar = some loaded → loaded.Compiled := by
  unfold setLanguage
  cases hload : g.load with
  | ok loaded => exact ⟨loaded, rfl, fun _ h => Grammar.load_compiled (h ▸ hload)⟩
  | error e => exact ⟨none, rfl, fun _ h => by cases h⟩

theorem tracks_setLanguage (p : DocumentParser E) (g : Grammar E) (d : Document) :
    (p.setLanguage g).1.Tracks d := by
  obtain ⟨grammar, hp, hcompiled⟩ := setLanguage_cases p g
  rw [hp]
  exact .of_blank hcompiled rfl rfl

theorem Tracks.applyEdit (h : p.Tracks d) (e : TextEdit) : (p.applyEdit e).Tracks d' := by
  unfold DocumentParser.applyEdit
  split
  · rename_i hnone
    rw [Option.isNone_iff_eq_none] at hnone
    exact .of_blank h.compiled (h.plain hnone).1 (h.plain hnone).2
  · rename_i hsome
    refine ⟨h.compiled, fun hnone => absurd (by rw [hnone]; rfl) hsome, fun _ h => (by cases h), ?_⟩
    intro g tree _ htree hclean
    simp only [Option.map_eq_some_iff] at htree
    obtain ⟨old, hold, -⟩ := htree
    simp [hold] at hclean

/-- Where the tree of a text differs from the tree there was; everywhere, if there was none. -/
def changedRanges (old : Option E.Tree) (new : E.Tree) (d : Document) : List ByteRange :=
  match old with
  | some old => E.difference old new
  | none => [⟨0, d.length⟩]

/-- What a parse can come to. -/
inductive Reparsed (p : DocumentParser E) (d : Document) :
    DocumentParser E × Except HighlightFailure (List ByteRange) → Prop
  | plain (hg : p.grammar = none) :
      Reparsed p d ({ p with dirty := false, pendingEdits := [] }, .ok [])
  | paused {g : LoadedGrammar E} (hg : p.grammar = some g) (base : Option E.Tree)
      (stats : WorkStats) (failure : HighlightFailure) :
      Reparsed p d ({ p with paused := some ⟨d.chars, base⟩, stats }, .error failure)
  | parsed {g : LoadedGrammar E} (hg : p.grammar = some g) (stats : WorkStats) :
      Reparsed p d
        ({ p with
          tree := some (E.parse g.language d.chars)
          dirty := false
          pendingEdits := []
          paused := none
          stats },
        .ok (changedRanges p.tree (E.parse g.language d.chars) d ++ p.pendingEdits))

/-- A parse of a tracked document reads the present text, taken up anew or where it was paused. -/
theorem Tracks.reparsed (h : p.Tracks d) (clock : Clock) : p.Reparsed d (p.reparse clock d) := by
  unfold DocumentParser.reparse
  split
  · rename_i hg
    exact .plain hg
  · rename_i g hg
    obtain ⟨base, hparse⟩ : ∃ base, p.paused.getD ⟨d.chars, p.tree⟩ = ⟨d.chars, base⟩ := by
      cases hpaused : p.paused with
      | none => exact ⟨p.tree, rfl⟩
      | some q =>
        refine ⟨q.base, ?_⟩
        have := h.paused q hpaused
        cases q
        cases this
        rfl
    simp only [hparse]
    split
    · exact .paused hg base _ _
    · split
      · rename_i old htree
        have hchanged : changedRanges p.tree (E.parse g.language d.chars) d =
            E.difference old (E.parse g.language d.chars) := by rw [htree]; rfl
        exact hchanged ▸ .parsed hg _
      · rename_i htree
        have hchanged : changedRanges p.tree (E.parse g.language d.chars) d = [⟨0, d.length⟩] := by
          rw [htree]; rfl
        exact hchanged ▸ .parsed hg _

/-- A parse keeps the parser in step, and one that ends leaves nothing to parse. -/
theorem Reparsed.tracks (h : p.Tracks d)
    {result : DocumentParser E × Except HighlightFailure (List ByteRange)}
    (hresult : p.Reparsed d result) : result.1.Tracks d := by
  cases hresult with
  | plain hg => exact .of_blank h.compiled (h.plain hg).1 (h.plain hg).2
  | paused hg base stats failure =>
    exact ⟨h.compiled, fun hnone => (by cases hg.symm.trans hnone),
      fun q hq => by cases hq; rfl, h.current⟩
  | parsed hg stats =>
    refine ⟨h.compiled, fun hnone => (by cases hg.symm.trans hnone), fun _ h => (by cases h), ?_⟩
    rintro g' tree hg' htree -
    cases hg.symm.trans hg'
    cases htree
    rfl

theorem Reparsed.upToDate {p' : DocumentParser E} {ranges : List ByteRange}
    (h : p.Reparsed d (p', .ok ranges)) : p'.UpToDate := by
  cases h with
  | plain hg => exact fun hsome => by rw [hg] at hsome; cases hsome
  | parsed hg stats => exact fun _ => ⟨rfl, rfl⟩

theorem Reparsed.parsed_of_parsed
    {result : DocumentParser E × Except HighlightFailure (List ByteRange)} (h : p.Reparsed d result)
    {g : LoadedGrammar E} (hp : p.Parsed d g) : result.1.Parsed d g := by
  cases h with
  | plain hg => cases hg.symm.trans hp.grammar
  | paused hg base stats failure => exact ⟨hp.grammar, hp.tree, hp.clean⟩
  | parsed hg stats =>
    cases hg.symm.trans hp.grammar
    exact ⟨hg, rfl, rfl⟩

theorem Reparsed.grammar {result : DocumentParser E × Except HighlightFailure (List ByteRange)}
    (h : p.Reparsed d result) : result.1.grammar = p.grammar := by
  cases h <;> rfl

theorem Reparsed.limits {result : DocumentParser E × Except HighlightFailure (List ByteRange)}
    (h : p.Reparsed d result) : result.1.limits = p.limits := by
  cases h <;> rfl

/-- A query of an up-to-date parser is refused for its range, or answered from the present text. -/
theorem Tracks.queryFollowing_cases (h : p.Tracks d) (hup : p.UpToDate) (clock : Clock)
    (r : ByteRange) :
    (¬ d.Takes r ∧ ∃ failure, p.queryFollowing clock r d = (p, .error failure)) ∨
      (d.Takes r ∧ ∃ stats answer,
        p.queryFollowing clock r d = ({ p with stats }, .ok answer) ∧
          answer.Current p.limits d p.grammar r) := by
  unfold queryFollowing queryWith
  split
  · rename_i failure hr
    refine .inl ⟨fun htakes => ?_, failure, rfl⟩
    rw [Document.requireRange_eq_ok.mpr htakes] at hr
    cases hr
  · rename_i hr
    refine .inr ⟨Document.requireRange_eq_ok.mp hr, ?_⟩
    split
    · rename_i hnone
      rw [Option.isNone_iff_eq_none] at hnone
      exact ⟨p.stats, .nothing r, rfl, by rw [hnone]; exact .plain r⟩
    · rename_i hsome
      obtain ⟨g, hg⟩ : ∃ g, p.grammar = some g := by
        cases hg : p.grammar with
        | none => exact (hsome (by rw [hg]; rfl)).elim
        | some g => exact ⟨g, rfl⟩
      obtain ⟨-, htree, -⟩ := h.parsed hup hg
      have htarget : p.target = some ⟨E.parse g.language d.chars, g.query⟩ := by
        rw [target, htree, hg]
        rfl
      simp only [htree, Option.isNone_some, Bool.false_eq_true, if_false, htarget]
      refine ⟨_, _, rfl, ?_⟩
      rw [hg]
      exact .parsed g r clock

end DocumentParser

namespace Highlighter

variable {E : SyntaxEngine}

/-- What a query by a highlighter that has nothing to parse can come to: it is sent to the worker
with the tree of the text, answered from the present text, or refused for its range. -/
inductive AskedFrom (h : Highlighter E) (r : ByteRange) (d : Document) : Asked E → Prop
  | sent {w : Worker E} {g : LoadedGrammar E} (hw : h.worker = some w)
      (hparsed : h.parser.Parsed d g) :
      AskedFrom h r d
        { highlighter := { h with
            lastRehighlight := some r
            worker := some (w.submit ⟨h.generation, ⟨E.parse g.language d.chars, g.query⟩, d, r,
              h.parser.limits⟩)
            state := .pending r } }
  | answered {answer : QueryAnswer} (hr : d.Takes r)
      (hnone : h.worker = none ∨ h.parser.grammar = none) (stats : WorkStats)
      (hcurrent : answer.Current h.parser.limits d h.parser.grammar r) :
      AskedFrom h r d
        ⟨{ h with lastRehighlight := some r, parser := { h.parser with stats } },
          some (r, answer)⟩
  | refused (hr : ¬ d.Takes r) :
      AskedFrom h r d { highlighter := { h with lastRehighlight := some r } }

theorem asked (h : Highlighter E) {d : Document} (htracks : h.parser.Tracks d)
    (hup : h.parser.UpToDate) (clock : Clock) (r : ByteRange) :
    h.AskedFrom r d (h.ask clock r d) := by
  unfold ask
  simp only
  split
  · rename_i w target hw htarget
    obtain ⟨g, hg⟩ : ∃ g, h.parser.grammar = some g := by
      cases hg : h.parser.grammar with
      | none =>
        rw [DocumentParser.target, (htracks.plain hg).1] at htarget
        cases htarget
      | some g => exact ⟨g, rfl⟩
    have hparsed := htracks.parsed hup hg
    rw [DocumentParser.target, hparsed.tree, hg] at htarget
    cases htarget
    exact .sent hw hparsed
  · rename_i hother
    have hnone : h.worker = none ∨ h.parser.grammar = none := by
      cases hw : h.worker with
      | none => exact .inl rfl
      | some w =>
        right
        cases hg : h.parser.grammar with
        | none => rfl
        | some g =>
          have hparsed := htracks.parsed hup hg
          exact (hother w ⟨E.parse g.language d.chars, g.query⟩ hw
            (by rw [DocumentParser.target, hparsed.tree, hg]; rfl)).elim
    rcases htracks.queryFollowing_cases hup clock r with
      ⟨hr, failure, hquery⟩ | ⟨hr, stats, answer, hquery, hcurrent⟩
    · rw [hquery]
      exact .refused hr
    · rw [hquery]
      exact .answered hr hnone stats hcurrent

end Highlighter

end LiveHighlight
