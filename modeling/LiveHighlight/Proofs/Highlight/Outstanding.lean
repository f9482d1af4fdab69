import LiveHighlight.Proofs.Highlight.Commas
import LiveHighlight.Proofs.Highlight.Currency

/-! When a parse is said to be outstanding. It is whenever one is: after a parse that was paused,
until one of the text as it then is has ended. But a parse after a later edit does not take the word
back; idle work does, by parsing once more. -/

namespace LiveHighlight

variable {E : SyntaxEngine}

/-! ### Attempts to parse -/

namespace DocumentParser

variable {p p' : DocumentParser E} {d : Document}

/-- A grammar is loaded, and there is no tree of the text as it is. -/
def Behind (p : DocumentParser E) : Prop :=
  p.grammar.isSome = true ∧ (p.tree = none ∨ p.dirty = true)

theorem behind_iff : p.Behind ↔ ¬ p.UpToDate := by
  unfold Behind UpToDate
  cases p.tree <;> cases p.dirty <;> simp [Option.isSome_iff_ne_none]

/-- A parser whose attempt to parse has ended. -/
structure Ended (p p' : DocumentParser E) : Prop where
  grammar : p'.grammar = p.grammar
  upToDate : p'.UpToDate
  paused : p'.paused = none
  parses : p'.stats.parseCount = p.stats.parseCount + if p.grammar.isSome then 1 else 0
  timeouts : p'.stats.parseTimeouts = p.stats.parseTimeouts

/-- A parser whose attempt to parse was paused. -/
structure Halted (p p' : DocumentParser E) : Prop where
  loaded : p.grammar.isSome = true
  grammar : p'.grammar = p.grammar
  tree : p'.tree = p.tree
  dirty : p'.dirty = p.dirty
  paused : p'.paused.isSome = true
  parses : p'.stats.parseCount = p.stats.parseCount
  timeouts : p'.stats.parseTimeouts = p.stats.parseTimeouts + 1

theorem Halted.behind_iff (h : p.Halted p') : p'.Behind ↔ p.Behind := by
  unfold Behind
  rw [h.grammar, h.tree, h.dirty]

theorem Tracks.attempt (h : p.Tracks d) (clock : Clock) :
    (∃ p' ranges, p.reparse clock d = (p', .ok ranges) ∧ p.Ended p') ∨
      ∃ p' failure, p.reparse clock d = (p', .error failure) ∧ p.Halted p' := by
  unfold reparse
  split
  · rename_i hplain
    refine .inl ⟨_, _, rfl, rfl, fun hloaded => ?_, (h.plain hplain).2, ?_, rfl⟩
    · rw [hplain] at hloaded
      cases hloaded
    · rw [hplain]
      rfl
  · rename_i g hg
    have hloaded : p.grammar.isSome = true := by
      rw [hg]
      rfl
    simp only
    split
    · exact .inr ⟨_, _, rfl, hloaded, rfl, rfl, rfl, rfl, rfl, rfl⟩
    · refine .inl ⟨_, _, rfl, rfl, fun _ => ⟨rfl, rfl⟩, rfl, ?_, ?_⟩
      · rw [if_pos hloaded]
        cases p.tree with
        | none => exact Nat.add_right_comm _ _ _
        | some old => rfl
      · cases p.tree <;> rfl

theorem behind_applyEdit (hloaded : p.grammar.isSome = true) (e : TextEdit) :
    (p.applyEdit e).Behind := by
  have hsome : ¬ p.grammar.isNone = true := by
    rw [Option.isNone_iff_eq_none]
    exact Option.isSome_iff_ne_none.mp hloaded
  unfold applyEdit Behind
  rw [if_neg hsome]
  refine ⟨hloaded, ?_⟩
  cases p.tree with
  | none => exact .inl rfl
  | some old => exact .inr (Bool.or_true _)

theorem grammar_applyEdit (p : DocumentParser E) (e : TextEdit) :
    (p.applyEdit e).grammar = p.grammar := by
  unfold applyEdit
  split <;> rfl

theorem stats_applyEdit (p : DocumentParser E) (e : TextEdit) :
    (p.applyEdit e).stats = p.stats := by
  unfold applyEdit
  split <;> rfl

end DocumentParser

/-- What of a highlighter tells of its parses. -/
structure Parsing (E : SyntaxEngine) where
  isDisabled : Bool
  reparsePending : Bool
  grammar : Option (LoadedGrammar E)
  tree : Option E.Tree
  dirty : Bool
  paused : Option (PausedParse E)
  parses : Nat
  timeouts : Nat

/-- The parses of a highlighter with another parser. -/
def Parsing.of (h : Highlighter E) (p : DocumentParser E) : Parsing E where
  isDisabled := h.isDisabled
  reparsePending := h.reparsePending
  grammar := p.grammar
  tree := p.tree
  dirty := p.dirty
  paused := p.paused
  parses := p.stats.parseCount
  timeouts := p.stats.parseTimeouts

theorem Parsing.of_queryFollowing (h : Highlighter E) {p : DocumentParser E} (hup : p.UpToDate)
    (clock : Clock) (r : ByteRange) (d : Document) :
    of h (p.queryFollowing clock r d).1 = of h p := by
  unfold DocumentParser.queryFollowing DocumentParser.queryWith
  split
  · rfl
  · split
    · rfl
    · rename_i hloaded
      have htree : p.tree.isNone = false := by
        have hsome := (hup (by simpa [Option.isSome_iff_ne_none] using hloaded)).1
        simpa [Option.isSome_iff_ne_none] using hsome
      rw [htree, if_neg Bool.false_ne_true]
      simp only
      split
      · rfl
      · simp only
        split <;> rfl

namespace Highlighter

variable {h h' : Highlighter E} {d d' : Document} {p : DocumentParser E} {was : Bool}

def parsing (h : Highlighter E) : Parsing E := .of h h.parser

/-- The number of attempts to parse: those that have ended and those that were paused. -/
def attempts (h : Highlighter E) : Nat := h.stats.parseCount + h.stats.parseTimeouts

theorem attempts_of_parsing (hsame : h'.parsing = h.parsing) : h'.attempts = h.attempts := by
  have hparses : h'.stats.parseCount = h.stats.parseCount := congrArg Parsing.parses hsame
  have htimeouts : h'.stats.parseTimeouts = h.stats.parseTimeouts := congrArg Parsing.timeouts hsame
  rw [attempts, attempts, hparses, htimeouts]

/-- A query of a text with nothing to parse does not parse. -/
theorem parsing_ask (hup : h.parser.UpToDate) (hon : h.isDisabled = false) (clock : Clock)
    (r : ByteRange) (d : Document) : (h.ask clock r d).highlighter.parsing = h.parsing := by
  unfold ask
  simp only
  split
  · have hsame : h.parsing = { Parsing.of h h.parser with isDisabled := false } := by
      rw [← hon]
      rfl
    exact hsame.symm
  · have hquery := Parsing.of_queryFollowing h hup clock r d
    generalize h.parser.queryFollowing clock r d = result at hquery ⊢
    obtain ⟨p, found⟩ := result
    cases found <;> exact hquery

theorem parsing_applyAll {answers : List (ByteRange × QueryAnswer)}
    (hanswers : h.Answered d answers) : (h.applyAll answers).1.parsing = h.parsing := by
  induction answers generalizing h with
  | nil => rfl
  | cons answer rest ih =>
    have hon := (hanswers answer (List.mem_cons_self ..)).1
    refine (ih hanswers.apply).trans ?_
    have hsame : h.parsing = { Parsing.of h h.parser with isDisabled := false } := by
      rw [← hon]
      rfl
    rw [hsame, apply]
    cases h.repaintedBy answer.2 <;> rfl

/-- A highlighter after an attempt to parse. If the attempt has ended, `pending` says whether a
parse is still said to be outstanding. -/
inductive Tried (p : DocumentParser E) (pending : Bool) (h : Highlighter E) : Prop
  | ended (hon : h.isDisabled = false) (hpending : h.reparsePending = pending)
      (hended : p.Ended h.parser)
  | halted (hon : h.isDisabled = false) (hpending : h.reparsePending = true)
      (hhalted : p.Halted h.parser)

/-- With a grammar loaded an attempt is counted, however it comes out. -/
theorem Tried.attempts {pending : Bool} (htried : h'.Tried h.parser pending)
    (hloaded : h.parser.grammar.isSome = true) : h'.attempts = h.attempts + 1 := by
  unfold Highlighter.attempts Highlighter.stats
  cases htried with
  | ended _ _ hended =>
    rw [hended.parses, hended.timeouts, if_pos hloaded]
    omega
  | halted _ _ hhalted =>
    rw [hhalted.parses, hhalted.timeouts]
    omega

theorem tried_ask (hended : p.Ended h.parser) (hon : h.isDisabled = false) (clock : Clock)
    (r : ByteRange) (d : Document) : (h.ask clock r d).highlighter.Tried p h.reparsePending := by
  have hsame := parsing_ask hended.upToDate hon clock r d
  generalize (h.ask clock r d).highlighter = after at hsame ⊢
  have hgrammar : after.parser.grammar = h.parser.grammar := congrArg Parsing.grammar hsame
  have htree : after.parser.tree = h.parser.tree := congrArg Parsing.tree hsame
  have hdirty : after.parser.dirty = h.parser.dirty := congrArg Parsing.dirty hsame
  refine .ended ((congrArg Parsing.isDisabled hsame).trans hon)
    (congrArg Parsing.reparsePending hsame) ?_
  constructor
  · exact hgrammar.trans hended.grammar
  · unfold DocumentParser.UpToDate
    rw [hgrammar, htree, hdirty]
    exact hended.upToDate
  · exact (congrArg Parsing.paused hsame).trans hended.paused
  · exact (congrArg Parsing.parses hsame).trans hended.parses
  · exact (congrArg Parsing.timeouts hsame).trans hended.timeouts

theorem tried_rebuild (hcompiled : ∀ g, h.parser.grammar = some g → g.Compiled)
    (hon : h.isDisabled = false) (clock : Clock) (d : Document) :
    (h.rebuild clock d).highlighter.Tried h.parser.invalidate false := by
  have hattempt := (DocumentParser.Tracks.of_blank (p := h.parser.invalidate) (d := d)
    hcompiled rfl rfl).attempt clock
  unfold rebuild
  simp only [startOver]
  rcases hattempt with ⟨p, ranges, hparse, hended⟩ | ⟨p, failure, hparse, hhalted⟩
  · rw [hparse]
    exact tried_ask (h := { h.startOver d with parser := p }) hended hon clock _ d
  · rw [hparse]
    exact .halted rfl rfl hhalted

theorem tried_askChanged (htracks : h.parser.Tracks d') (hon : h.isDisabled = false) (clock : Clock)
    (e : TextEdit) (d : Document) :
    (h.askChanged clock e d).highlighter.Tried (h.parser.applyEdit e) h.reparsePending := by
  have hedited : (h.parser.applyEdit e).Tracks d := htracks.applyEdit e
  have hattempt := hedited.attempt clock
  unfold askChanged
  rw [if_neg (by simp [hon])]
  simp only [moveAlong]
  rcases hattempt with ⟨p, ranges, hparse, hended⟩ | ⟨p, failure, hparse, hhalted⟩
  · rw [hparse]
    exact tried_ask (h := { h.moveAlong e with parser := p }) hended hon clock _ d
  · rw [hparse]
    exact .halted rfl rfl hhalted

theorem tried_askIdle (htracks : h.parser.Tracks d) (hon : h.isDisabled = false)
    (hpending : h.reparsePending = true) (clock : Clock) :
    (h.askIdle clock d).highlighter.Tried h.parser false := by
  have hattempt := htracks.attempt clock
  unfold askIdle
  rw [if_neg (by simp [hon]), if_pos hpending]
  rcases hattempt with ⟨p, ranges, hparse, hended⟩ | ⟨p, failure, hparse, hhalted⟩
  · simp only [hparse]
    exact tried_ask (h := { h with parser := p, reparsePending := false }) hended hon clock _ d
  · simp only [hparse]
    exact .halted hon hpending hhalted

/-- Idle work with no parse outstanding does not parse. -/
theorem parsing_askIdle (hin : h.InStep d) (hidle : h.isDisabled = true ∨ h.reparsePending = false)
    (clock : Clock) : (h.askIdle clock d).highlighter.parsing = h.parsing := by
  unfold askIdle
  split
  · rfl
  · rename_i hon
    have hon := isDisabled_of_not hon
    have hparsed : h.reparsePending = false := by
      rcases hidle with hoff | hparsed
      · cases hon.symm.trans hoff
      · exact hparsed
    rw [if_neg (by simp [hparsed])]
    split
    · rfl
    · split
      · rfl
      · rename_i next others _
        exact parsing_ask (h := { h with deferred := others }) (hin.caughtUp hon hparsed) hon
          clock next d

/-! ### What is outstanding -/

/-- A parse is said to be outstanding only if the parser is behind the text or the parse was
overtaken; and whenever the parser is behind, the latest attempt was paused. -/
structure Accounted (h : Highlighter E) (was : Bool) : Prop where
  off : h.isDisabled = true → h.reparsePending = false
  behind : h.isDisabled = false → h.parser.Behind → h.parser.paused.isSome = true
  paused : h.parser.paused.isSome = true → h.reparsePending = true
  pending : h.reparsePending = true → h.parser.Behind ∨ was = true
  overtaken : was = true →
    h.reparsePending = true ∧ h.parser.grammar.isSome = true ∧ ¬ h.parser.Behind

theorem Accounted.congr (ha : h.Accounted was) (hsame : h'.parsing = h.parsing) :
    h'.Accounted was := by
  have hoff : h'.isDisabled = h.isDisabled := congrArg Parsing.isDisabled hsame
  have hpending : h'.reparsePending = h.reparsePending := congrArg Parsing.reparsePending hsame
  have hgrammar : h'.parser.grammar = h.parser.grammar := congrArg Parsing.grammar hsame
  have htree : h'.parser.tree = h.parser.tree := congrArg Parsing.tree hsame
  have hdirty : h'.parser.dirty = h.parser.dirty := congrArg Parsing.dirty hsame
  have hpaused : h'.parser.paused = h.parser.paused := congrArg Parsing.paused hsame
  have hbehind : h'.parser.Behind ↔ h.parser.Behind := by
    unfold DocumentParser.Behind
    rw [hgrammar, htree, hdirty]
  constructor
  · rw [hoff, hpending]
    exact ha.off
  · rw [hoff, hbehind, hpaused]
    exact ha.behind
  · rw [hpaused, hpending]
    exact ha.paused
  · rw [hpending, hbehind]
    exact ha.pending
  · rw [hpending, hgrammar, hbehind]
    exact ha.overtaken

theorem Accounted.loaded (ha : h.Accounted was) (hpending : h.reparsePending = true) :
    h.parser.grammar.isSome = true := by
  rcases ha.pending hpending with hbehind | hovertaken
  · exact hbehind.1
  · exact (ha.overtaken hovertaken).2.1

theorem Accounted.not_overtaken (ha : h.Accounted was) (hoff : h.isDisabled = true) :
    was = false := by
  cases was with
  | false => rfl
  | true => cases (ha.off hoff).symm.trans (ha.overtaken rfl).1

/-- After an attempt that has ended, a parse that is still said to be outstanding was overtaken. -/
theorem accounted_ended (hon : h.isDisabled = false) (hended : p.Ended h.parser)
    (hloaded : h.reparsePending = true → p.grammar.isSome = true) :
    h.Accounted h.reparsePending where
  off hoff := by cases hon.symm.trans hoff
  behind _ hbehind := (DocumentParser.behind_iff.mp hbehind hended.upToDate).elim
  paused hpaused := by
    rw [hended.paused] at hpaused
    cases hpaused
  pending hpending := .inr hpending
  overtaken hpending := by
    rw [hended.grammar, DocumentParser.behind_iff, not_not]
    exact ⟨hpending, hloaded hpending, hended.upToDate⟩

theorem accounted_halted (hon : h.isDisabled = false) (hpending : h.reparsePending = true)
    (hhalted : p.Halted h.parser) (hbehind : p.Behind ∨ was = true)
    (hovertaken : was = true → ¬ p.Behind) : h.Accounted was where
  off hoff := by cases hon.symm.trans hoff
  behind _ _ := hhalted.paused
  paused _ := hpending
  pending _ := hbehind.imp hhalted.behind_iff.mpr id
  overtaken hyes := by
    rw [hhalted.behind_iff, hhalted.grammar]
    exact ⟨hpending, hhalted.loaded, hovertaken hyes⟩

/-- After a parse of the whole text nothing is left of an earlier one. -/
theorem accounted_rebuild (hcompiled : ∀ g, h.parser.grammar = some g → g.Compiled)
    (hon : h.isDisabled = false) (clock : Clock) (d : Document) :
    (h.rebuild clock d).highlighter.Accounted false := by
  have htried := tried_rebuild hcompiled hon clock d
  generalize (h.rebuild clock d).highlighter = after at htried ⊢
  cases htried with
  | ended hon hpending hended =>
    rw [← hpending]
    refine accounted_ended hon hended fun hstill => ?_
    cases hpending.symm.trans hstill
  | halted hon hpending hhalted =>
    exact accounted_halted hon hpending hhalted (.inl ⟨hhalted.loaded, .inl rfl⟩)
      fun hno => by cases hno

theorem accounted_blank (hoff : h.isDisabled = true) (hpending : h.reparsePending = false)
    (hpaused : h.parser.paused = none) : h.Accounted false where
  off _ := hpending
  behind hon := by cases hon.symm.trans hoff
  paused hsome := by
    rw [hpaused] at hsome
    cases hsome
  pending hstill := by cases hpending.symm.trans hstill
  overtaken hno := by cases hno

/-- What the parse after an edit leaves outstanding is a paused parse of its own, or else an earlier
one that it overtook. -/
theorem accounted_askChanged (ha : h.Accounted was) (htracks : h.parser.Tracks d') (clock : Clock)
    (e : TextEdit) (d : Document) :
    (h.askChanged clock e d).highlighter.Accounted
      (if h.stats.parseTimeouts < (h.askChanged clock e d).highlighter.stats.parseTimeouts then
        false
      else h.reparsePending) := by
  by_cases hoff : h.isDisabled = true
  · -- Nothing is outstanding while highlighting is off.
    have hnone : was = false := ha.not_overtaken hoff
    have hsame : h.askChanged clock e d = { highlighter := h } := by
      unfold askChanged
      rw [if_pos hoff]
    rw [hsame, if_neg (Nat.lt_irrefl _), ha.off hoff, ← hnone]
    exact ha
  · have hstats : (h.parser.applyEdit e).stats = h.stats := h.parser.stats_applyEdit e
    have htried := tried_askChanged htracks (isDisabled_of_not hoff) clock e d
    generalize (h.askChanged clock e d).highlighter = after at htried ⊢
    cases htried with
    | ended hon hpending hended =>
      have hparsed : after.stats.parseTimeouts = h.stats.parseTimeouts := by
        rw [stats, hended.timeouts, hstats]
      rw [if_neg (Nat.not_lt_of_le (Nat.le_of_eq hparsed)), ← hpending]
      refine accounted_ended hon hended fun hstill => ?_
      rw [DocumentParser.grammar_applyEdit]
      exact ha.loaded (hpending ▸ hstill)
    | halted hon hpending hhalted =>
      have hpaused : after.stats.parseTimeouts = h.stats.parseTimeouts + 1 := by
        rw [stats, hhalted.timeouts, hstats]
      have hloaded := hhalted.loaded
      rw [DocumentParser.grammar_applyEdit] at hloaded
      rw [if_pos (Nat.lt_of_lt_of_eq (Nat.lt_succ_self _) hpaused.symm)]
      exact accounted_halted hon hpending hhalted
        (.inl (DocumentParser.behind_applyEdit hloaded e)) fun hno => by cases hno

/-- Idle work takes up what is outstanding, and nothing is left of it once its parse has ended. -/
theorem accounted_askIdle (ha : h.Accounted was) (hin : h.InStep d) (clock : Clock) :
    (h.askIdle clock d).highlighter.Accounted
      (was && (h.askIdle clock d).highlighter.stats.parseCount == h.stats.parseCount) := by
  by_cases hwork : h.isDisabled = true ∨ h.reparsePending = false
  · have hquiet := parsing_askIdle hin hwork clock
    have hcount : (h.askIdle clock d).highlighter.stats.parseCount = h.stats.parseCount :=
      congrArg Parsing.parses hquiet
    rw [hcount, beq_self_eq_true, Bool.and_true]
    exact ha.congr hquiet
  · rw [not_or, Bool.not_eq_true, Bool.not_eq_false] at hwork
    obtain ⟨hon, hpending⟩ := hwork
    have hloaded := ha.loaded hpending
    have htried := tried_askIdle hin.tracks hon hpending clock
    generalize (h.askIdle clock d).highlighter = after at htried ⊢
    cases htried with
    | ended hon hparsed hended =>
      have hcount : after.stats.parseCount = h.stats.parseCount + 1 := by
        rw [stats, hended.parses, if_pos hloaded]
        rfl
      have hmore : (after.stats.parseCount == h.stats.parseCount) = false := by
        rw [hcount]
        exact beq_eq_false_iff_ne.mpr (Nat.succ_ne_self _)
      rw [hmore, Bool.and_false, ← hparsed]
      refine accounted_ended hon hended fun hstill => ?_
      cases hparsed.symm.trans hstill
    | halted hon hstill hhalted =>
      have hcount : after.stats.parseCount = h.stats.parseCount := hhalted.parses
      rw [hcount, beq_self_eq_true, Bool.and_true]
      exact accounted_halted hon hstill hhalted (ha.pending hpending) fun hyes =>
        (ha.overtaken hyes).2.2

end Highlighter

/-! ### Sessions -/

namespace Session

variable {s : Session E} {was : Bool}

/-- Taking in answers parses nothing. -/
theorem parsing_step (hin : s.InStep) (clock : Clock) (a : Action E) :
    (s.step clock a).1.highlighter.parsing =
      (s.stage clock a).session.highlighter.parsing := by
  have hanswers := (hin.stage clock a).answered
  rw [step_eq]
  exact Highlighter.parsing_applyAll hanswers

/-- Whether the parse that was outstanding has been overtaken: an edit made since was parsed without
a pause, and no parse has ended in idle work since then. Another edit whose parse is paused begins
anew, as do a parse of the whole text and turning highlighting off. -/
def overtakes (s : Session E) (was : Bool) (clock : Clock) (a : Action E) : Bool :=
  let before := s.highlighter
  let after := (s.step clock a).1.highlighter
  match a with
  | .edit _ _ =>
    if (s.editMade a).isNone then was
    else if before.stats.parseTimeouts < after.stats.parseTimeouts then false
    else before.reparsePending
  | .idle => was && after.stats.parseCount == before.stats.parseCount
  | .disable => false
  | _ => !s.rebuilds a && was

/-- Whether the outstanding parse has been overtaken after a run. -/
def overtaken (s : Session E) (was : Bool) : List (Clock × Action E) → Bool
  | [] => was
  | (clock, a) :: steps =>
    (s.step clock a).1.overtaken (s.overtakes was clock a) steps

theorem accounted_edit (hin : s.InStep) (ha : s.highlighter.Accounted was) (clock : Clock)
    (r : ByteRange) (text : String) :
    (s.step clock (.edit r text)).1.highlighter.Accounted
      (s.overtakes was clock (.edit r text)) := by
  have hsame := parsing_step hin clock (.edit r text)
  have htimeouts : (s.step clock (.edit r text)).1.highlighter.stats.parseTimeouts =
      (s.stage clock (.edit r text)).session.highlighter.stats.parseTimeouts :=
    congrArg Parsing.timeouts hsame
  refine Highlighter.Accounted.congr ?_ hsame
  simp only [overtakes, htimeouts]
  rcases s.stage_edit clock r text with ⟨e, d, -, hmade, hstage⟩ | ⟨hmade, hstage⟩
  · rw [hmade, hstage, if_neg (by simp)]
    exact Highlighter.accounted_askChanged ha hin.tracks clock e d
  · rw [hmade, hstage]
    exact ha

theorem accounted_idle (hin : s.InStep) (ha : s.highlighter.Accounted was) (clock : Clock) :
    (s.step clock .idle).1.highlighter.Accounted (s.overtakes was clock .idle) := by
  have hsame := parsing_step hin clock .idle
  have hparses : (s.step clock .idle).1.highlighter.stats.parseCount =
      (s.highlighter.askIdle clock s.document).highlighter.stats.parseCount :=
    congrArg Parsing.parses hsame
  refine Highlighter.Accounted.congr ?_ hsame
  simp only [overtakes, hparses]
  exact Highlighter.accounted_askIdle ha hin clock

theorem accounted_setLanguage (hin : s.InStep) (ha : s.highlighter.Accounted was) (clock : Clock)
    (g : Grammar E) :
    (s.step clock (.setLanguage g)).1.highlighter.Accounted
      (s.overtakes was clock (.setLanguage g)) := by
  refine Highlighter.Accounted.congr ?_ (parsing_step hin clock (.setLanguage g))
  simp only [overtakes, rebuilds, Bool.not_not]
  change (s.highlighter.askLanguage clock g s.document).highlighter.Accounted _
  obtain ⟨grammar, hparser, hcompiled⟩ := s.highlighter.parser.setLanguage_cases g
  unfold Highlighter.askLanguage
  split
  · rename_i hoff
    rw [hoff, Bool.true_and, ha.not_overtaken hoff]
    refine Highlighter.accounted_blank hoff (ha.off hoff) ?_
    simp only [Highlighter.load, hparser]
    rfl
  · rename_i hon
    have hon := Highlighter.isDisabled_of_not hon
    rw [hon, Bool.false_and]
    refine Highlighter.accounted_rebuild (h := s.highlighter.load g) ?_ hon clock s.document
    intro loaded hloaded
    simp only [Highlighter.load, hparser] at hloaded
    exact hcompiled loaded hloaded

theorem accounted_enable (hin : s.InStep) (ha : s.highlighter.Accounted was) (clock : Clock) :
    (s.step clock .enable).1.highlighter.Accounted (s.overtakes was clock .enable) := by
  refine Highlighter.Accounted.congr ?_ (parsing_step hin clock .enable)
  simp only [overtakes, rebuilds]
  change (s.highlighter.askEnabled clock s.document).highlighter.Accounted _
  unfold Highlighter.askEnabled
  split
  · rename_i hoff
    rw [hoff, Bool.not_true, Bool.false_and]
    exact Highlighter.accounted_rebuild (h := { s.highlighter with state := .idle })
      hin.tracks.compiled rfl clock s.document
  · rename_i hon
    rw [Highlighter.isDisabled_of_not hon, Bool.not_false, Bool.true_and]
    exact ha

theorem accounted_disable (hin : s.InStep) (ha : s.highlighter.Accounted was) (clock : Clock) :
    (s.step clock .disable).1.highlighter.Accounted false := by
  refine Highlighter.Accounted.congr ?_ (parsing_step hin clock .disable)
  change (s.highlighter.disable s.document).1.Accounted false
  unfold Highlighter.disable
  split
  · rename_i hoff
    rw [← ha.not_overtaken hoff]
    exact ha
  · exact Highlighter.accounted_blank rfl rfl rfl

/-- What is outstanding is accounted for from action to action. -/
theorem accounted_step (hin : s.InStep) (ha : s.highlighter.Accounted was) (clock : Clock)
    (a : Action E) :
    (s.step clock a).1.highlighter.Accounted (s.overtakes was clock a) := by
  have hother : (s.stage clock a).session.highlighter.parsing = s.highlighter.parsing →
      (s.step clock a).1.highlighter.Accounted was := fun hsame =>
    ha.congr ((parsing_step hin clock a).trans hsame)
  cases a with
  | edit r text => exact accounted_edit hin ha clock r text
  | idle => exact accounted_idle hin ha clock
  | setLanguage g => exact accounted_setLanguage hin ha clock g
  | enable => exact accounted_enable hin ha clock
  | disable => exact accounted_disable hin ha clock
  | setTheme theme =>
    apply hother
    change (s.highlighter.setTheme theme s.document).1.parsing = _
    unfold Highlighter.setTheme
    simp only
    split <;> rfl
  | poll =>
    apply hother
    simp only [stage]
    cases s.highlighter.worker <;> rfl
  | setCursors positions => exact hother rfl
  | setParseTimeout micros => exact hother rfl
  | work m => exact hother rfl

theorem accounted_run (hin : s.InStep) (ha : s.highlighter.Accounted was)
    (steps : List (Clock × Action E)) :
    (s.run steps).highlighter.Accounted (s.overtaken was steps) := by
  induction steps generalizing s was with
  | nil => exact ha
  | cons step steps ih =>
    obtain ⟨clock, a⟩ := step
    exact ih (hin.step clock a) (accounted_step hin ha clock a)

theorem accounted_opened (config : Config) (theme : Theme) (d : Document) :
    (opened config theme d : Session E).highlighter.Accounted false where
  off _ := rfl
  behind _ hbehind := by cases hbehind.1
  paused hpaused := by cases hpaused
  pending hpending := by cases hpending
  overtaken hno := by cases hno

theorem attempts_step (hin : s.InStep) (clock : Clock) :
    (s.step clock .idle).1.highlighter.attempts =
      (s.highlighter.askIdle clock s.document).highlighter.attempts :=
  Highlighter.attempts_of_parsing (parsing_step hin clock .idle)

/-- When a parse is said to be outstanding. In every state that a run reaches with highlighting on,
it is said exactly if the parser is behind the text or an outstanding parse was overtaken by that of
a later edit, which leaves the parser not behind. Unless one was overtaken, the parser is behind
exactly if the latest attempt at the text and grammar was paused. As long as a parse is said to be
outstanding, idle work attempts one and work is pending. Otherwise idle work parses nothing, and any
work that is pending is another. -/
theorem reparse_outstanding (config : Config) (theme : Theme) (d : Document)
    (steps : List (Clock × Action E)) :
    let start : Session E := opened config theme d
    let s := start.run steps
    let h := s.highlighter
    let overtaken := start.overtaken false steps
    h.isDisabled = false →
      (h.reparsePending = true ↔ h.parser.Behind ∨ overtaken = true) ∧
      (overtaken = true → ¬ h.parser.Behind) ∧
      (overtaken = false → (h.parser.Behind ↔ h.parser.paused.isSome = true)) ∧
      (h.parser.Behind ∨ overtaken = true → h.hasPendingWork = true ∧
        ∀ clock, (s.step clock .idle).1.highlighter.attempts = h.attempts + 1) ∧
      (¬ h.parser.Behind → overtaken = false →
        (h.hasPendingWork = true → h.deferred ≠ [] ∨ h.state.waiting.isSome = true) ∧
          ∀ clock, (s.step clock .idle).1.highlighter.attempts = h.attempts) := by
  intro start s h overtaken hon
  have hin : s.InStep := (inStep_opened config theme d).run steps
  have ha : h.Accounted overtaken :=
    accounted_run (inStep_opened config theme d) (accounted_opened config theme d) steps
  have hpending : h.reparsePending = true ↔ h.parser.Behind ∨ overtaken = true := by
    constructor
    · exact ha.pending
    · rintro (hbehind | hovertaken)
      · exact ha.paused (ha.behind hon hbehind)
      · exact (ha.overtaken hovertaken).1
  refine ⟨hpending, fun hovertaken => (ha.overtaken hovertaken).2.2, ?_, ?_, ?_⟩
  · intro hnot
    constructor
    · exact ha.behind hon
    · intro hpaused
      rcases hpending.mp (ha.paused hpaused) with hbehind | hovertaken
      · exact hbehind
      · cases hnot.symm.trans hovertaken
  · intro hstill
    have hstill := hpending.mpr hstill
    constructor
    · simp [Highlighter.hasPendingWork, hstill]
    · intro clock
      rw [attempts_step hin]
      exact (Highlighter.tried_askIdle hin.tracks hon hstill clock).attempts (ha.loaded hstill)
  · intro hcurrent hnot
    have hparsed : h.reparsePending = false := by
      rw [← Bool.not_eq_true, hpending, hnot]
      simp [hcurrent]
    constructor
    · intro hwork
      simpa [Highlighter.hasPendingWork, hparsed] using hwork
    · intro clock
      rw [attempts_step hin]
      exact Highlighter.attempts_of_parsing (Highlighter.parsing_askIdle hin (.inr hparsed) clock)

/-- After a paused parse and a later one that was not paused, the text is parsed once more. -/
theorem reparse_outstanding_later :
    let start : Session Commas.engine := opened {} (.plain "plain") Commas.pair
    let s := start.run Commas.laterSteps
    let h := s.highlighter
    h.isDisabled = false ∧ start.overtaken false Commas.laterSteps = true ∧ ¬ h.parser.Behind ∧
      h.reparsePending = true ∧ h.hasPendingWork = true ∧
      (s.step .steady .idle).1.highlighter.attempts = h.attempts + 1 := by
  intro start s h
  have hon : h.isDisabled = false := by decide +kernel
  have hovertaken : start.overtaken false Commas.laterSteps = true := by decide +kernel
  obtain ⟨hpending, hcurrent, -, hwork, -⟩ :=
    reparse_outstanding {} (.plain "plain") Commas.pair Commas.laterSteps hon
  obtain ⟨hsaid, hidle⟩ := hwork (.inr hovertaken)
  exact ⟨hon, hovertaken, hcurrent hovertaken, hpending.mpr (.inr hovertaken), hsaid,
    hidle .steady⟩

end Session

end LiveHighlight
