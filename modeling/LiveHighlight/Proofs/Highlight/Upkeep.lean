import LiveHighlight.Proofs.Highlight.Bearing
import LiveHighlight.Proofs.Highlight.Commas

/-! The upkeep of one document's parser. Whatever is asked of it, in whatever order, its tree, its
paused parse and what it knows of edits fit each other and the text, so that a tree which is not
marked as edited is the tree of the text. -/

namespace LiveHighlight

variable {E : SyntaxEngine}

/-- What can be asked of the parser of a document. An edit changes the text as well. -/
inductive ParserMove (E : SyntaxEngine)
  | setLanguage (grammar : Grammar E)
  | invalidate
  | edit (range : ByteRange) (text : String)
  | reparse
  | query (range : ByteRange)
  | queryFollowing (range : ByteRange)
  | setParseTimeout (micros : UInt64)

/-! ### What a parse comes to -/

namespace DocumentParser

variable {p p' : DocumentParser E} {d : Document}

/-- The parse that is taken up next: the paused one, or else one of the text from the tree. -/
def takenUp (p : DocumentParser E) (d : Document) : PausedParse E := p.paused.getD ⟨d.chars, p.tree⟩

/-- A parser after it was told to parse. A parse counts when it comes to its end. -/
inductive Reached (p : DocumentParser E) (d : Document) : DocumentParser E → Prop
  | plain (hg : p.grammar = none) : Reached p d { p with dirty := false, pendingEdits := [] }
  | paused {g : LoadedGrammar E} (hg : p.grammar = some g) (stats : WorkStats)
      (hcount : stats.parseCount = p.stats.parseCount) :
      Reached p d { p with paused := some (p.takenUp d), stats }
  | parsed {g : LoadedGrammar E} (hg : p.grammar = some g) (stats : WorkStats)
      (hcount : stats.parseCount = p.stats.parseCount + 1) :
      Reached p d
        { p with
          tree := some (E.parse g.language (p.takenUp d).text)
          dirty := false
          pendingEdits := []
          paused := none
          stats }

theorem reached_reparse (p : DocumentParser E) (clock : Clock) (d : Document) :
    p.Reached d (p.reparse clock d).1 := by
  unfold reparse
  split
  · rename_i hg
    exact .plain hg
  · rename_i g hg
    simp only
    split
    · exact .paused hg _ rfl
    · split
      · refine .parsed hg _ ?_
        simp only [WorkStats.parseCount]
        omega
      · refine .parsed hg _ ?_
        simp only [WorkStats.parseCount]
        omega

/-- A parse that is paused was paused before, or began from the text and the tree there were. -/
theorem Reached.paused_since (h : p.Reached d p') {q : PausedParse E} (hq : p'.paused = some q) :
    p.paused = some q ∨ p.paused = none ∧ q = ⟨d.chars, p.tree⟩ := by
  cases h with
  | plain hg => exact .inl hq
  | paused hg stats hcount =>
    cases hq
    unfold takenUp
    cases p.paused with
    | none => exact .inr ⟨rfl, rfl⟩
    | some q => exact .inl rfl
  | parsed hg stats hcount => cases hq

/-- A query changes nothing but what it counts, or parses first. -/
theorem reached_queryWith (p : DocumentParser E) (clock : Clock) (r : ByteRange) (d : Document)
    (run : QueryTarget E → QueryAnswer) :
    ∃ p' stats, (p' = p ∨ p.Reached d p') ∧ stats.parseCount = p'.stats.parseCount ∧
      (p.queryWith clock r d run).1 = { p' with stats } := by
  have hreached := p.reached_reparse clock d
  unfold queryWith
  split
  · exact ⟨p, p.stats, .inl rfl, rfl, rfl⟩
  · split
    · exact ⟨p, p.stats, .inl rfl, rfl, rfl⟩
    · generalize hfirst : (if p.tree.isNone then p.reparse clock d else (p, .ok [])) = first
      have hp : first.1 = p ∨ p.Reached d first.1 := by
        rw [← hfirst]
        split
        · exact .inr hreached
        · exact .inl rfl
      obtain ⟨p', parsed⟩ := first
      cases parsed with
      | error failure => exact ⟨p', p'.stats, hp, rfl, rfl⟩
      | ok ranges =>
        simp only
        split
        · exact ⟨p', p'.stats, hp, rfl, rfl⟩
        · refine ⟨p', _, hp, ?_, rfl⟩
          split <;> rfl

theorem setLanguage_loaded (p : DocumentParser E) (g : Grammar E) :
    (p.setLanguage g).1 = { p.invalidate with grammar := g.loaded, grammarId := g.id } := by
  unfold setLanguage Grammar.loaded
  cases g.load <;> rfl

end DocumentParser

/-! ### Moves -/

/-- A document with its parser, and of their past the language set last and whether the text was
edited since a parse last came to its end. -/
structure Upkeep (E : SyntaxEngine) where
  parser : DocumentParser E
  document : Document
  language : Option (Grammar E) := none
  edited : Bool := false

namespace Upkeep

variable {u : Upkeep E} {p : DocumentParser E}

def opened (config : Config) (d : Document) : Upkeep E := { parser := { config }, document := d }

/-- The document with its parser after a move that leaves the text as it is. -/
def withParser (u : Upkeep E) (p : DocumentParser E) : Upkeep E :=
  { u with
    parser := p
    edited := u.edited && p.stats.parseCount == u.parser.stats.parseCount }

/-- The document and its parser after a move. A range that is refused changes nothing. -/
def step (u : Upkeep E) (clock : Clock) : ParserMove E → Upkeep E
  | .setLanguage g => { u.withParser (u.parser.setLanguage g).1 with language := some g }
  | .invalidate => u.withParser u.parser.invalidate
  | .edit r text =>
    match u.document.planEdit r text, u.document.replace r text with
    | .ok e, .ok d => { u with parser := u.parser.applyEdit e, document := d, edited := true }
    | _, _ => u
  | .reparse => u.withParser (u.parser.reparse clock u.document).1
  | .query r => u.withParser (u.parser.query clock r u.document).1
  | .queryFollowing r => u.withParser (u.parser.queryFollowing clock r u.document).1
  | .setParseTimeout micros => u.withParser (u.parser.setParseTimeout micros)

def run (u : Upkeep E) (moves : List (Clock × ParserMove E)) : Upkeep E :=
  moves.foldl (fun u move => u.step move.1 move.2) u

theorem step_edit (u : Upkeep E) (clock : Clock) (r : ByteRange) (text : String) :
    (∃ e d, u.document.planEdit r text = .ok e ∧ u.document.replace r text = .ok d ∧
      u.step clock (.edit r text) =
        { u with parser := u.parser.applyEdit e, document := d, edited := true }) ∨
    (∃ failure, u.document.planEdit r text = .error failure) ∧ u.step clock (.edit r text) = u := by
  cases hplan : u.document.planEdit r text with
  | ok e =>
    obtain ⟨-, d, -, hreplace⟩ := (Document.planEdit_eq_ok hplan).1.edits text
    refine .inl ⟨e, d, rfl, hreplace, ?_⟩
    simp only [step, hplan, hreplace]
  | error failure =>
    refine .inr ⟨⟨failure, rfl⟩, ?_⟩
    simp only [step, hplan]

/-! ### What every move keeps -/

/-- The parser fits its document: beside what `Tracks` says, a tree is marked as edited when the
text was, only a parser with a grammar remembers edits, and a paused parse goes on from the tree
there is. -/
structure Kept (u : Upkeep E) : Prop where
  tracks : u.parser.Tracks u.document
  dirty : u.parser.dirty = (u.parser.tree.isSome && u.edited)
  plain : u.parser.grammar = none → u.parser.pendingEdits = []
  base : ∀ q, u.parser.paused = some q → q.base = u.parser.tree
  grammar : u.parser.grammar = u.language.bind Grammar.loaded

theorem Kept.takenUp (hk : u.Kept) :
    u.parser.takenUp u.document = ⟨u.document.chars, u.parser.tree⟩ := by
  unfold DocumentParser.takenUp
  cases hpaused : u.parser.paused with
  | none => rfl
  | some q =>
    have htext := hk.tracks.paused q hpaused
    have hbase := hk.base q hpaused
    obtain ⟨text, base⟩ := q
    simp only at htext hbase
    rw [Option.getD_some, htext, hbase]

theorem Kept.of_blank (hcompiled : ∀ g, p.grammar = some g → g.Compiled)
    (htree : p.tree = none) (hpaused : p.paused = none) (hclean : p.dirty = false)
    (hedits : p.pendingEdits = []) (hgrammar : p.grammar = u.language.bind Grammar.loaded) :
    (u.withParser p).Kept where
  tracks := .of_blank hcompiled htree hpaused
  dirty := by
    show p.dirty = (p.tree.isSome && _)
    rw [hclean, htree]
    rfl
  plain _ := hedits
  base q hq := by cases hpaused.symm.trans hq
  grammar := hgrammar

theorem Kept.withStats (hk : u.Kept) (stats : WorkStats)
    (hcount : stats.parseCount = u.parser.stats.parseCount) :
    (u.withParser { u.parser with stats }).Kept where
  tracks := hk.tracks.withStats stats
  dirty := by
    show u.parser.dirty = (u.parser.tree.isSome &&
      (u.edited && stats.parseCount == u.parser.stats.parseCount))
    rw [hcount, beq_self_eq_true, Bool.and_true]
    exact hk.dirty
  plain := hk.plain
  base := hk.base
  grammar := hk.grammar

theorem Kept.reached (hk : u.Kept) (hp : u.parser.Reached u.document p) :
    (u.withParser p).Kept := by
  have htracks := hk.tracks
  cases hp with
  | plain hg =>
    obtain ⟨htree, hpaused⟩ := htracks.plain hg
    exact .of_blank htracks.compiled htree hpaused rfl rfl hk.grammar
  | paused hg stats hcount =>
    have hkept := hk.withStats stats hcount
    refine ⟨⟨hkept.tracks.compiled, fun hnone => ?_, fun q hq => ?_, hkept.tracks.current⟩,
      hkept.dirty, hkept.plain, fun q hq => ?_, hkept.grammar⟩
    · cases hg.symm.trans hnone
    · cases hq
      rw [hk.takenUp]
      rfl
    · cases hq
      rw [hk.takenUp]
      rfl
  | @parsed g hg stats hcount =>
    refine ⟨⟨htracks.compiled, fun hnone => ?_, fun q hq => (by cases hq), ?_⟩, ?_,
      fun _ => rfl, fun q hq => (by cases hq), hk.grammar⟩
    · cases hg.symm.trans hnone
    · rintro g' tree hg' htree -
      cases hg.symm.trans hg'
      cases htree
      rw [hk.takenUp]
      rfl
    · show false = (true && (u.edited && stats.parseCount == u.parser.stats.parseCount))
      have hmore : (stats.parseCount == u.parser.stats.parseCount) = false := by
        rw [beq_eq_false_iff_ne]
        omega
      rw [hmore, Bool.and_false, Bool.and_false]

theorem Kept.queried (hk : u.Kept) (clock : Clock) (r : ByteRange)
    (run : QueryTarget E → QueryAnswer) :
    (u.withParser (u.parser.queryWith clock r u.document run).1).Kept := by
  obtain ⟨p, stats, hp, hcount, hquery⟩ := u.parser.reached_queryWith clock r u.document run
  rw [hquery]
  rcases hp with rfl | hp
  · exact hk.withStats stats hcount
  · -- Counting the query after the parse is no second parse: what was edited is so still.
    have hkept := (hk.reached hp).withStats stats hcount
    have hsame : ((u.withParser p).withParser { p with stats }).edited =
        (u.withParser { p with stats }).edited := by
      simp [withParser, hcount]
    exact ⟨hkept.tracks, hsame ▸ hkept.dirty, hkept.plain, hkept.base, hkept.grammar⟩

theorem Kept.applyEdit (hk : u.Kept) (e : TextEdit) (d : Document) :
    Kept { u with parser := u.parser.applyEdit e, document := d, edited := true } := by
  have htracks : (u.parser.applyEdit e).Tracks d := hk.tracks.applyEdit e
  unfold DocumentParser.applyEdit at htracks ⊢
  split
  · rename_i hnone
    rw [if_pos hnone] at htracks
    have hg := Option.isNone_iff_eq_none.mp hnone
    obtain ⟨htree, hpaused⟩ := hk.tracks.plain hg
    refine ⟨htracks, ?_, hk.plain, hk.base, hk.grammar⟩
    have hclean := hk.dirty
    rw [htree] at hclean ⊢
    exact hclean
  · rename_i hsome
    rw [if_neg hsome] at htracks
    refine ⟨htracks, ?_, fun hnone => ?_, fun q hq => (by cases hq), hk.grammar⟩
    · show (u.parser.dirty || u.parser.tree.isSome) = ((u.parser.tree.map _).isSome && true)
      rw [hk.dirty, Option.isSome_map, Bool.and_true]
      cases u.parser.tree.isSome <;> simp
    · exact (hsome (by rw [hnone]; rfl)).elim

theorem Kept.step (hk : u.Kept) (clock : Clock) (m : ParserMove E) : (u.step clock m).Kept := by
  cases m with
  | setLanguage g =>
    have htracks := DocumentParser.tracks_setLanguage u.parser g u.document
    simp only [Upkeep.step]
    rw [DocumentParser.setLanguage_loaded] at htracks ⊢
    exact .of_blank (u := { u with language := some g }) htracks.compiled rfl rfl rfl rfl rfl
  | invalidate => exact .of_blank hk.tracks.compiled rfl rfl rfl rfl hk.grammar
  | edit r text =>
    rcases u.step_edit clock r text with ⟨e, d, -, -, hstep⟩ | ⟨-, hstep⟩
    · rw [hstep]
      exact hk.applyEdit e d
    · rw [hstep]
      exact hk
  | reparse => exact hk.reached (u.parser.reached_reparse clock u.document)
  | query r => exact hk.queried clock r _
  | queryFollowing r => exact hk.queried clock r _
  | setParseTimeout micros =>
    have hkept := hk.withStats u.parser.stats rfl
    exact ⟨⟨hk.tracks.compiled, hk.tracks.plain, hk.tracks.paused, hk.tracks.current⟩,
      hkept.dirty, hk.plain, hk.base, hk.grammar⟩

theorem kept_opened (config : Config) (d : Document) : (opened config d : Upkeep E).Kept :=
  ⟨.of_blank (fun g hg => (by cases hg)) rfl rfl, rfl, fun _ => rfl, fun q hq => (by cases hq), rfl⟩

theorem Kept.run (hk : u.Kept) (moves : List (Clock × ParserMove E)) : (u.run moves).Kept := by
  induction moves generalizing u with
  | nil => exact hk
  | cons move moves ih => exact ih (hk.step move.1 move.2)

/-! ### Paused parses -/

/-- The moves after which a paused parse would read another text or begin from another tree. -/
def discards (u : Upkeep E) : ParserMove E → Prop
  | .setLanguage _ => True
  | .invalidate => True
  | .edit r text => ∃ e, u.document.planEdit r text = .ok e
  | _ => False

theorem Kept.paused_of_discards (hk : u.Kept) {m : ParserMove E} (hm : u.discards m)
    (clock : Clock) : (u.step clock m).parser.paused = none := by
  cases m with
  | setLanguage g =>
    show (u.parser.setLanguage g).1.paused = none
    rw [DocumentParser.setLanguage_loaded]
    rfl
  | invalidate => rfl
  | edit r text =>
    obtain ⟨e, hplan⟩ := hm
    rcases u.step_edit clock r text with ⟨e', d, -, -, hstep⟩ | ⟨⟨failure, hrefused⟩, -⟩
    · rw [hstep]
      show (u.parser.applyEdit e').paused = none
      unfold DocumentParser.applyEdit
      split
      · rename_i hnone
        exact (hk.tracks.plain (Option.isNone_iff_eq_none.mp hnone)).2
      · rfl
    · cases hplan.symm.trans hrefused
  | reparse => exact hm.elim
  | query r => exact hm.elim
  | queryFollowing r => exact hm.elim
  | setParseTimeout micros => exact hm.elim

theorem paused_since_queryWith {clock : Clock} {r : ByteRange} {run : QueryTarget E → QueryAnswer}
    {q : PausedParse E}
    (hq : (u.parser.queryWith clock r u.document run).1.paused = some q) :
    u.parser.paused = some q ∨
      u.parser.paused = none ∧ q = ⟨u.document.chars, u.parser.tree⟩ := by
  obtain ⟨p, stats, hp, -, hquery⟩ := u.parser.reached_queryWith clock r u.document run
  rw [hquery] at hq
  rcases hp with rfl | hp
  · exact .inl hq
  · exact hp.paused_since hq

/-- No move but a parse pauses one, and none changes one that is paused. -/
theorem Kept.paused_step (hk : u.Kept) {clock : Clock} {m : ParserMove E} {q : PausedParse E}
    (hq : (u.step clock m).parser.paused = some q) :
    u.parser.paused = some q ∨
      u.parser.paused = none ∧ q = ⟨u.document.chars, u.parser.tree⟩ := by
  cases m with
  | setLanguage g => cases (hk.paused_of_discards (m := .setLanguage g) trivial clock).symm.trans hq
  | invalidate => cases hq
  | edit r text =>
    rcases u.step_edit clock r text with ⟨e, d, hplan, -⟩ | ⟨-, hstep⟩
    · have hnone := hk.paused_of_discards (m := .edit r text) ⟨e, hplan⟩ clock
      cases hnone.symm.trans hq
    · rw [hstep] at hq
      exact .inl hq
  | reparse => exact (u.parser.reached_reparse clock u.document).paused_since hq
  | query r => exact paused_since_queryWith hq
  | queryFollowing r => exact paused_since_queryWith hq
  | setParseTimeout micros => exact .inl hq

/-! ### Runs -/

/-- The parser of a document is in order after every run of moves. It has a tree only with a
grammar, which is that of the language set last; its tree is marked as edited just when the text was
edited since a parse last came to its end; without a grammar it remembers no edit. A paused parse
reads the text there is from the tree there is: it was begun on them, stays as it is while it is
paused, and is discarded by every edit, language and invalidation. So a tree that is not marked as
edited is the one of the text under the grammar, and there is something to query just when there is
a tree. -/
theorem parser_in_order (config : Config) (d : Document) (moves : List (Clock × ParserMove E)) :
    let u := (opened config d).run moves
    let p := u.parser
    (p.tree.isSome = true → p.grammar.isSome = true) ∧
      (p.dirty = true ↔ p.tree.isSome = true ∧ u.edited = true) ∧
      (p.grammar = none → p.pendingEdits = []) ∧
      (∀ q, p.paused = some q → q.text = u.document.chars ∧ q.base = p.tree) ∧
      (∀ clock m, (u.discards m → (u.step clock m).parser.paused = none) ∧
        ∀ q, (u.step clock m).parser.paused = some q →
          p.paused = some q ∨ p.paused = none ∧ q = ⟨u.document.chars, p.tree⟩) ∧
      (∀ tree, p.tree = some tree → p.dirty = false →
        ∃ g, p.grammar = some g ∧ u.language.bind Grammar.loaded = some g ∧
          tree = E.parse g.language u.document.chars) ∧
      p.target.isSome = p.tree.isSome := by
  intro u p
  have hk : u.Kept := (kept_opened config d).run moves
  have hloaded : p.tree.isSome = true → p.grammar.isSome = true := by
    intro htree
    rw [Option.isSome_iff_ne_none]
    intro hnone
    rw [(hk.tracks.plain hnone).1] at htree
    cases htree
  refine ⟨hloaded, ?_, hk.plain, fun q hq => ⟨hk.tracks.paused q hq, hk.base q hq⟩,
    fun clock m => ⟨fun hm => hk.paused_of_discards hm clock, fun q hq => hk.paused_step hq⟩,
    fun tree htree hclean => ?_, ?_⟩
  · rw [hk.dirty, Bool.and_eq_true]
  · obtain ⟨g, hg⟩ := Option.isSome_iff_exists.mp (hloaded (Option.isSome_of_eq_some htree))
    exact ⟨g, hg, hk.grammar.symm.trans hg, hk.tracks.current g tree hg htree hclean⟩
  · unfold DocumentParser.target
    cases htree : p.tree with
    | none => rfl
    | some tree =>
      obtain ⟨g, hg⟩ := Option.isSome_iff_exists.mp (hloaded (Option.isSome_of_eq_some htree))
      rw [hg]
      rfl

/-- An edit whose parse is paused. -/
def pausedMoves : List (Clock × ParserMove Commas.engine) := [
  (.steady, .setLanguage (Commas.grammar "punctuation.delimiter")),
  (.steady, .reparse),
  (.steady, .edit ⟨1, 2⟩ "34"),
  (.steady, .setParseTimeout 1),
  (Commas.slow, .reparse)]

/-- The paused parse reads the edited text, and another edit discards it. Taken up without a limit
it gives the tree of the text. -/
theorem parser_in_order_paused :
    let u := (opened {} Commas.pair).run pausedMoves
    let v := u.run [(.steady, .setParseTimeout 0), (Commas.slow, .reparse)]
    (u.parser.tree.isSome = true ∧ u.edited = true) ∧
      (∃ q, u.parser.paused = some q ∧ q.text = ['[', '3', '4', ',', '2', ']'] ∧
        q.base = u.parser.tree) ∧
      (u.step .steady (.edit ⟨0, 0⟩ "[")).parser.paused = none ∧
      ∃ tree, v.parser.tree = some tree ∧ tree = Commas.engine.parse () v.document.chars := by
  intro u v
  obtain ⟨-, hdirty, -, hpaused, hsteps, -⟩ :=
    parser_in_order (E := Commas.engine) {} Commas.pair pausedMoves
  obtain ⟨-, -, -, -, -, hclean, -⟩ := parser_in_order (E := Commas.engine) {} Commas.pair
    (pausedMoves ++ [(.steady, .setParseTimeout 0), (Commas.slow, .reparse)])
  refine ⟨hdirty.mp (by decide +kernel), ?_, (hsteps .steady _).1 ⟨_, rfl⟩, ?_⟩
  · obtain ⟨q, hq⟩ := Option.isSome_iff_exists.mp
      (show u.parser.paused.isSome = true by decide +kernel)
    obtain ⟨htext, hbase⟩ := hpaused q hq
    refine ⟨q, hq, ?_, hbase⟩
    rw [htext]
    decide +kernel
  · obtain ⟨tree, htree⟩ := Option.isSome_iff_exists.mp
      (show v.parser.tree.isSome = true by decide +kernel)
    have hrun : (opened {} Commas.pair).run
        (pausedMoves ++ [(.steady, .setParseTimeout 0), (Commas.slow, .reparse)]) = v :=
      List.foldl_append
    rw [hrun] at hclean
    obtain ⟨g, -, -, hparse⟩ := hclean tree htree (by decide +kernel)
    exact ⟨tree, htree, hparse⟩

end Upkeep

end LiveHighlight
