import LiveHighlight.Proofs.Highlight.Upkeep
import LiveHighlight.Proofs.Text.Trails

/-! What a parser still owes its document: the edits made since a parse last came to its end. They
outlast every parse that is paused, and the parse that comes to its end tells all of them. -/

namespace LiveHighlight

variable {E : SyntaxEngine}

/-- The text when a parse last came to its end or the tree was dropped, and the edits made since. -/
structure Backlog where
  text : Document
  edits : List TextEdit := []

namespace DocumentParser

variable {p : DocumentParser E} {d : Document}

/-- A parse without a limit is not paused. -/
theorem reparse_unlimited (p : DocumentParser E) (clock : Clock) (d : Document)
    (hlimit : p.config.parseTimeoutMicros = 0) : ∃ ranges, (p.reparse clock d).2 = .ok ranges := by
  unfold reparse
  split
  · exact ⟨_, rfl⟩
  · have hruns : ∀ bytes, p.pauses clock bytes = false := by
      intro bytes
      rw [pauses, hlimit]
      rfl
    simp only [hruns, Bool.false_eq_true, if_false]
    exact ⟨_, rfl⟩

end DocumentParser

namespace Upkeep

variable {u : Upkeep E} {b : Backlog} {p : DocumentParser E}

/-! ### The backlog of a run -/

/-- The backlog after the parser became another one over the same text. -/
def settled (u : Upkeep E) (b : Backlog) (p : DocumentParser E) : Backlog :=
  if p.stats.parseCount = u.parser.stats.parseCount then b else { text := u.document }

theorem settled_of_same (hcount : p.stats.parseCount = u.parser.stats.parseCount) :
    u.settled b p = b := if_pos hcount

theorem settled_of_parsed (hcount : p.stats.parseCount = u.parser.stats.parseCount + 1) :
    u.settled b p = { text := u.document } := if_neg (by omega)

def backlogStep (u : Upkeep E) (b : Backlog) (clock : Clock) : ParserMove E → Backlog
  | .setLanguage _ => { text := u.document }
  | .invalidate => { text := u.document }
  | .edit r text =>
    match u.document.planEdit r text with
    | .ok e => { b with edits := b.edits ++ [e] }
    | .error _ => b
  | m => u.settled b (u.step clock m).parser

def backlog (u : Upkeep E) (b : Backlog) : List (Clock × ParserMove E) → Backlog
  | [] => b
  | (clock, m) :: moves => (u.step clock m).backlog (u.backlogStep b clock m) moves

/-- All texts of a run fit a machine word. -/
def Fits (u : Upkeep E) : List (Clock × ParserMove E) → Prop
  | [] => u.document.length < wordSize
  | (clock, m) :: moves => u.document.length < wordSize ∧ (u.step clock m).Fits moves

theorem Fits.head {moves : List (Clock × ParserMove E)} (h : u.Fits moves) :
    u.document.length < wordSize := by
  cases moves with
  | nil => exact h
  | cons move moves => exact h.1

/-! ### What every move keeps -/

/-- The edits of the backlog lead to the text, and a parser with a grammar remembers them all. -/
structure Owes (u : Upkeep E) (b : Backlog) : Prop where
  trail : Document.Trail b.text b.edits u.document
  pending : u.parser.grammar.isSome = true →
    u.parser.pendingEdits = TextEdit.insertedRanges b.edits

theorem owes_blank (hedits : u.parser.pendingEdits = []) : u.Owes { text := u.document } :=
  ⟨.start _, fun _ => hedits⟩

theorem Owes.reached (h : u.Owes b) (hp : u.parser.Reached u.document p) :
    (u.withParser p).Owes (u.settled b p) := by
  cases hp with
  | plain hg =>
    have hsame : u.settled b { u.parser with dirty := false, pendingEdits := [] } = b :=
      settled_of_same rfl
    rw [hsame]
    exact ⟨h.trail, fun hsome => (Option.isSome_iff_ne_none.mp hsome hg).elim⟩
  | paused hg stats hcount =>
    rw [settled_of_same hcount]
    exact ⟨h.trail, h.pending⟩
  | parsed hg stats hcount =>
    rw [settled_of_parsed hcount]
    exact ⟨.start _, fun _ => rfl⟩

theorem Owes.queried (h : u.Owes b) (clock : Clock) (r : ByteRange)
    (run : QueryTarget E → QueryAnswer) :
    (u.withParser (u.parser.queryWith clock r u.document run).1).Owes
      (u.settled b (u.parser.queryWith clock r u.document run).1) := by
  obtain ⟨p, stats, hp, hcount, hquery⟩ := u.parser.reached_queryWith clock r u.document run
  rw [hquery]
  rcases hp with rfl | hp
  · rw [settled_of_same hcount]
    exact ⟨h.trail, h.pending⟩
  · -- What the query counts for itself is no parse.
    have hsettled : u.settled b { p with stats } = u.settled b p := by
      simp only [settled, hcount]
    have howes := h.reached hp
    rw [hsettled]
    exact ⟨howes.trail, howes.pending⟩

theorem Owes.applyEdit (h : u.Owes b) {e : TextEdit} {d : Document} (hedit : u.document.Edits e d)
    (hfits : d.length < wordSize) :
    Owes { u with parser := u.parser.applyEdit e, document := d, edited := true }
      { b with edits := b.edits ++ [e] } := by
  refine ⟨h.trail.edit hedit hfits, fun hsome => ?_⟩
  simp only [DocumentParser.applyEdit] at hsome ⊢
  split
  · rename_i hnone
    rw [if_pos hnone] at hsome
    rw [Option.isNone_iff_eq_none.mp hnone] at hsome
    cases hsome
  · rename_i hloaded
    rw [if_neg hloaded] at hsome
    rw [TextEdit.insertedRanges_concat, h.pending hsome]

theorem Owes.step (h : u.Owes b) (clock : Clock) (m : ParserMove E)
    (hfits : (u.step clock m).document.length < wordSize) :
    (u.step clock m).Owes (u.backlogStep b clock m) := by
  cases m with
  | setLanguage g =>
    refine owes_blank (u := u.step clock (.setLanguage g)) ?_
    show (u.parser.setLanguage g).1.pendingEdits = []
    rw [DocumentParser.setLanguage_loaded]
    rfl
  | invalidate => exact owes_blank (u := u.step clock .invalidate) rfl
  | edit r text =>
    rcases u.step_edit clock r text with
      ⟨e, d, hplan, hreplace, hstep⟩ | ⟨⟨failure, hrefused⟩, hstep⟩
    · rw [hstep] at hfits
      simp only [hstep, backlogStep, hplan]
      exact h.applyEdit ⟨r, text, hplan, hreplace⟩ hfits
    · simp only [hstep, backlogStep, hrefused]
      exact h
  | reparse => exact h.reached (u.parser.reached_reparse clock u.document)
  | query r => exact h.queried clock r _
  | queryFollowing r => exact h.queried clock r _
  | setParseTimeout micros =>
    have hsame : u.settled b (u.parser.setParseTimeout micros) = b := settled_of_same rfl
    show Owes _ (u.settled b (u.parser.setParseTimeout micros))
    rw [hsame]
    exact ⟨h.trail, h.pending⟩

theorem Owes.run (h : u.Owes b) {moves : List (Clock × ParserMove E)} (hfits : u.Fits moves) :
    (u.run moves).Owes (u.backlog b moves) := by
  induction moves generalizing u b with
  | nil => exact h
  | cons move moves ih => exact ih (h.step move.1 move.2 hfits.2.head) hfits.2

/-! ### What a parse tells -/

/-- A parse that comes to its end tells every remembered edit, and all of the text if there was no
tree. -/
theorem Owes.told (h : u.Owes b) (hk : u.Kept) (hloaded : u.parser.grammar.isSome = true)
    {clock : Clock} {ranges : List ByteRange}
    (hreparse : u.parser.reparse clock u.document = (p, .ok ranges)) :
    (∀ r ∈ TextEdit.insertedRanges b.edits, r ∈ ranges) ∧
      (u.parser.tree = none → ⟨0, u.document.length⟩ ∈ ranges) ∧
      p.pendingEdits = [] ∧ p.dirty = false := by
  have hreparsed := hreparse ▸ hk.tracks.reparsed clock
  cases hreparsed with
  | plain hg => exact (Option.isSome_iff_ne_none.mp hloaded hg).elim
  | parsed hg stats =>
    refine ⟨fun r hr => ?_, fun htree => ?_, rfl, rfl⟩
    · rw [h.pending hloaded]
      exact List.mem_append_right _ hr
    · rw [htree]
      exact List.mem_append_left _ (List.mem_singleton.mpr rfl)

theorem Kept.withheld (hk : u.Kept) {clock : Clock} {failure : HighlightFailure}
    (hreparse : u.parser.reparse clock u.document = (p, .error failure)) :
    p.tree = u.parser.tree ∧ p.dirty = u.parser.dirty ∧
      p.pendingEdits = u.parser.pendingEdits := by
  have hreparsed := hreparse ▸ hk.tracks.reparsed clock
  cases hreparsed with
  | paused hg base stats failure => exact ⟨rfl, rfl, rfl⟩

/-- No edit is lost on the way to a parse, however often that is paused. A parser with a grammar
owes its document the edits made since a parse last came to its end or the tree was dropped. The
next parse that comes to its end tells what each of them inserted, carried along the later ones, so
every byte inserted since lies in a range that it tells, and every byte at all if there was no tree.
Then nothing is owed. A parse that is paused leaves the tree, its mark and what is owed as they are,
and one without a limit comes to its end. It is assumed that the texts fit a machine word. -/
theorem edits_told (config : Config) (d : Document) (moves : List (Clock × ParserMove E))
    (hfits : (opened config d).Fits moves) :
    let u := (opened config d).run moves
    let b := (opened config d).backlog { text := d } moves
    Document.Trail b.text b.edits u.document ∧
      (u.parser.grammar.isSome = true → ∀ clock p,
        (∀ ranges, u.parser.reparse clock u.document = (p, .ok ranges) →
          (∀ before e after, b.edits = before ++ e :: after →
            TextEdit.carryAll after e.newRange ∈ ranges) ∧
          (∀ i, TextEdit.originAll b.edits i = none → ∃ r ∈ ranges, r.contains i = true) ∧
          (u.parser.tree = none → ⟨0, u.document.length⟩ ∈ ranges) ∧
          p.pendingEdits = [] ∧ p.dirty = false) ∧
        (∀ failure, u.parser.reparse clock u.document = (p, .error failure) →
          p.tree = u.parser.tree ∧ p.dirty = u.parser.dirty ∧
            p.pendingEdits = u.parser.pendingEdits) ∧
        (u.parser.config.parseTimeoutMicros = 0 →
          ∃ ranges, (u.parser.reparse clock u.document).2 = .ok ranges)) := by
  intro u b
  have hk : u.Kept := (kept_opened config d).run moves
  have howes : u.Owes b := (owes_blank (u := opened config d) rfl).run hfits
  refine ⟨howes.trail, fun hloaded clock p => ⟨fun ranges hreparse => ?_,
    fun failure hreparse => hk.withheld hreparse, u.parser.reparse_unlimited clock u.document⟩⟩
  obtain ⟨htold, hwhole, hdone, hclean⟩ := howes.told hk hloaded hreparse
  refine ⟨?_, fun i hi => ?_, hwhole, hdone, hclean⟩
  · intro before e after hedits
    refine htold _ ?_
    rw [hedits]
    exact TextEdit.carryAll_mem_insertedRanges before e after
  · obtain ⟨r, hr, hcontains⟩ := howes.trail.exists_insertedRange hi
    exact ⟨r, htold r hr, hcontains⟩

def overlappingMoves : List (Clock × ParserMove Commas.engine) := [
  (.steady, .setLanguage (Commas.grammar "punctuation.delimiter")),
  (.steady, .reparse),
  (.steady, .setParseTimeout 1),
  (.steady, .edit ⟨1, 2⟩ "34"),
  (Commas.slow, .reparse),
  (.steady, .edit ⟨2, 4⟩ ",5"),
  (Commas.slow, .reparse)]

/-- Paused once more the parser still owes both; the next parse that has the time tells them. -/
theorem edits_told_overlapping :
    let moves := overlappingMoves
    let u := (opened {} Commas.pair).run moves
    let b := (opened {} Commas.pair).backlog { text := Commas.pair } moves
    (opened {} Commas.pair).Fits moves ∧ b.edits.length = 2 ∧
      (∃ p ranges, u.parser.reparse .steady u.document = (p, .ok ranges) ∧
        ⟨1, 4⟩ ∈ ranges ∧ ⟨2, 4⟩ ∈ ranges ∧ (∃ r ∈ ranges, r.contains 1 = true) ∧
        p.pendingEdits = [] ∧ p.dirty = false) ∧
      ∃ p failure, u.parser.reparse Commas.slow u.document = (p, .error failure) ∧
        p.tree = u.parser.tree ∧ p.dirty = true ∧ p.pendingEdits = [⟨1, 4⟩, ⟨2, 4⟩] := by
  intro moves u b
  have hfits : (opened {} Commas.pair).Fits moves := by
    refine ⟨?_, ?_, ?_, ?_, ?_, ?_, ?_, (?_ : _ < _)⟩ <;> decide +kernel
  obtain ⟨-, htold⟩ := edits_told {} Commas.pair moves hfits
  obtain ⟨e₁, e₂, hedits, h₁, h₂⟩ : ∃ e₁ e₂, b.edits = [e₁, e₂] ∧
      e₂.carryRange e₁.newRange = ⟨1, 4⟩ ∧ e₂.newRange = ⟨2, 4⟩ :=
    ⟨_, _, rfl, by decide +kernel, by decide +kernel⟩
  have hloaded : u.parser.grammar.isSome = true := by decide +kernel
  refine ⟨hfits, by rw [hedits]; rfl, ?_, ?_⟩
  · have hends : (u.parser.reparse .steady u.document).2.isOk = true := by decide +kernel
    rcases hreparse : u.parser.reparse .steady u.document with ⟨p, failure | ranges⟩
    · rw [hreparse] at hends
      cases hends
    · obtain ⟨hparsed, -⟩ := htold hloaded .steady p
      obtain ⟨hinserted, hbytes, -, hdone, hclean⟩ := hparsed ranges hreparse
      refine ⟨p, ranges, rfl, ?_, ?_, hbytes 1 ?_, hdone, hclean⟩
      · exact h₁ ▸ hinserted [] e₁ [e₂] hedits
      · exact h₂ ▸ hinserted [e₁] e₂ [] hedits
      · decide +kernel
  · have hends : (u.parser.reparse Commas.slow u.document).2.isOk = false := by decide +kernel
    rcases hreparse : u.parser.reparse Commas.slow u.document with ⟨p, failure | ranges⟩
    · obtain ⟨-, hpaused, -⟩ := htold hloaded Commas.slow p
      obtain ⟨htree, hdirty, hpending⟩ := hpaused failure hreparse
      refine ⟨p, failure, rfl, htree, ?_, ?_⟩
      · rw [hdirty]
        decide +kernel
      · rw [hpending]
        decide +kernel
    · rw [hreparse] at hends
      cases hends

end Upkeep

end LiveHighlight
