import LiveHighlight.Proofs.Highlight.Advance
import LiveHighlight.Proofs.Highlight.Attendance
import LiveHighlight.Proofs.Highlight.Bearing
import LiveHighlight.Proofs.Highlight.Frame
import Mathlib.Algebra.GroupWithZero.Nat

/-! Idle work done over and over, without a worker. Deferred ranges shrink as long as few captures
are around their first bytes. A byte with as many captures around it as lie between two looks at the
clock stays deferred for good if queries get no time, and idle work never comes to an end. -/

namespace LiveHighlight

open CompiledQuery (lookInterval)

variable {E : SyntaxEngine} {found : LoadedGrammar E → List Char → List QueryCapture}

/-- The number of bytes of a range. -/
def ByteRange.size (r : ByteRange) : Nat := r.stop - r.start

namespace DocumentParser

/-- How many captures of a text are around a byte. -/
def depth (found : LoadedGrammar E → List Char → List QueryCapture) (p : DocumentParser E)
    (d : Document) (i : Nat) : Nat :=
  p.grammar.elim 0 fun g => g.depth found d i

/-- No query of a text passes its match limit. -/
def Unlimited (p : DocumentParser E) (d : Document) : Prop :=
  ∀ g, p.grammar = some g → ∀ r, E.exceeds g.query.query (E.parse g.language d.chars) d.chars r
    p.limits.matchLimit = false

theorem Tracks.reparse_eq_ok {p : DocumentParser E} {d : Document} (h : p.Tracks d) {clock : Clock}
    (hgoes : p.pauses clock (Utf8.byteLength d.chars) = false) :
    ∃ p' ranges, p.reparse clock d = (p', .ok ranges) := by
  unfold reparse
  split
  · exact ⟨_, _, rfl⟩
  · rename_i g _
    have htext : (p.paused.getD ⟨d.chars, p.tree⟩).text = d.chars := by
      cases hpaused : p.paused with
      | none => rfl
      | some q => exact h.paused q hpaused
    simp only [htext]
    rw [if_neg (by simp [hgoes])]
    exact ⟨_, _, rfl⟩

end DocumentParser

namespace Highlighter

variable {h : Highlighter E} {d : Document} {r : ByteRange} {o : QueryAnswer}

/-! ### What a query leaves for later -/

/-- What a query leaves of its range is less than the range if few captures are around its start. -/
theorem size_postponed_lt (hE : E.Reports found) (htracks : h.parser.Tracks d)
    (hanswered : h.Answered d [(r, o)]) (hr : r.start < r.stop)
    (hdepth : h.parser.depth found d r.start < lookInterval) :
    ((postponed r o).map (·.size)).sum < r.size := by
  have ho : o.Current h.parser.limits d h.parser.grammar r :=
    (hanswered _ (List.mem_singleton_self _)).2.2
  have hadvances : r.start < o.covered.stop := by
    rw [DocumentParser.depth] at hdepth
    have hcompiled := htracks.compiled
    generalize h.parser.grammar = grammar at ho hdepth hcompiled
    cases ho with
    | plain => exact hr
    | parsed g r clock => exact g.runFollowing_advances hE (hcompiled g rfl) hr hdepth clock
  unfold postponed
  split
  · simp only [List.map_singleton, List.sum_singleton, ByteRange.size]
    omega
  · simp only [List.map_nil, List.sum_nil, ByteRange.size]
    omega

/-- A query without time leaves for later what comes from a byte with many captures around it. -/
theorem postponed_deep (hE : E.Reports found) (htracks : h.parser.Tracks d)
    (hanswered : h.Answered d [(r, o)]) (hbudget : h.parser.limits.budget = .zero)
    (hlimit : h.parser.Unlimited d) {i : Nat} (hi : r.contains i = true)
    (hdepth : lookInterval ≤ h.parser.depth found d i) :
    ∃ stop, stop ≤ i ∧ postponed r o = [⟨stop, r.stop⟩] := by
  have ho : o.Current h.parser.limits d h.parser.grammar r :=
    (hanswered _ (List.mem_singleton_self _)).2.2
  have hheld : o.complete = false ∧ o.covered.stop ≤ i := by
    rw [DocumentParser.depth] at hdepth
    have hcompiled := htracks.compiled
    unfold DocumentParser.Unlimited at hlimit
    generalize h.parser.grammar = grammar at ho hdepth hcompiled hlimit
    cases ho with
    | plain => cases hdepth
    | parsed g r clock =>
      exact g.runFollowing_held hE (hcompiled g rfl) hbudget (hlimit g rfl r) hi hdepth clock
  have hstop := (ByteRange.contains_iff.mp hi).2
  refine ⟨o.covered.stop, hheld.2, if_pos ⟨by rw [hheld.1]; rfl, by omega⟩⟩

/-! ### One piece of work -/

/-- A highlighter in step with its text that has nothing but deferred ranges to see to. -/
structure Resting (h : Highlighter E) (d : Document) : Prop where
  inStep : h.InStep d
  orderly : h.Orderly
  inline : h.worker = none
  on : h.isDisabled = false
  parsed : h.reparsePending = false
  free : h.state.waiting = none
  takes : ∀ r ∈ h.deferred, d.Takes r

theorem Resting.hasPendingWork (hr : h.Resting d) :
    h.hasPendingWork = !h.deferred.isEmpty := by
  simp [Highlighter.hasPendingWork, hr.parsed, hr.free]

theorem Resting.askIdle_cons (hr : h.Resting d) {next : ByteRange} {others : List ByteRange}
    (horder : h.cursors.byProximity d h.deferred = next :: others) (clock : Clock) :
    h.askIdle clock d = { h with deferred := others }.ask clock next d := by
  unfold askIdle
  rw [if_neg (by simp [hr.on]), if_neg (by simp [hr.parsed]),
    if_neg (by simp [awaitsWorker, hr.inline]), horder]

theorem Resting.askIdle_nil (hr : h.Resting d) (hnone : h.cursors.byProximity d h.deferred = [])
    (clock : Clock) : h.askIdle clock d = { highlighter := h } := by
  unfold askIdle
  rw [if_neg (by simp [hr.on]), if_neg (by simp [hr.parsed]),
    if_neg (by simp [awaitsWorker, hr.inline]), hnone]

theorem perm_byProximity (cursors : Cursors) (d : Document) (ranges : List ByteRange) :
    (cursors.byProximity d ranges).Perm ranges := by
  have hsorted :=
    List.mergeSort_perm (ranges.map fun r => (cursors.distanceTo d r, r)) Cursors.before
  have hmap := hsorted.map Prod.snd
  rw [List.map_map] at hmap
  simpa [Cursors.byProximity, Function.comp_def] using hmap

theorem exists_next (hsome : h.deferred ≠ []) :
    ∃ next others, h.cursors.byProximity d h.deferred = next :: others := by
  cases horder : h.cursors.byProximity d h.deferred with
  | nil =>
    have hlength := (perm_byProximity h.cursors d h.deferred).length_eq
    rw [horder] at hlength
    exact (hsome (List.length_eq_zero_iff.mp hlength.symm)).elim
  | cons next others => exact ⟨next, others, rfl⟩

/-- A piece of idle work takes the nearest deferred range off the list, and has it answered. -/
theorem Resting.askIdle_answered (hr : h.Resting d) {next : ByteRange} {others : List ByteRange}
    (horder : h.cursors.byProximity d h.deferred = next :: others) (clock : Clock) :
    ∃ o stats, o.Current h.parser.limits d h.parser.grammar next ∧
      h.askIdle clock d =
        ⟨{ h with
            deferred := others
            lastRehighlight := some next
            parser := { h.parser with stats } }, some (next, o)⟩ := by
  have hnext := hr.takes next ((mem_deferred horder).mpr (.inl rfl))
  have hup := hr.inStep.caughtUp hr.on hr.parsed
  have hasked := asked { h with deferred := others } hr.inStep.tracks hup clock next
  rw [hr.askIdle_cons horder]
  generalize ({ h with deferred := others } : Highlighter E).ask clock next d = a at hasked ⊢
  cases hasked with
  | sent hw => cases hr.inline.symm.trans hw
  | refused hnot => exact (hnot hnext).elim
  | @answered o _ _ stats hcurrent => exact ⟨o, stats, hcurrent, rfl⟩

/-- A piece of idle work queries the nearest deferred range, and defers again what that query leaves
of it. -/
theorem Resting.idle_deferred (hE : E.AlignsCaptures) (hr : h.Resting d) {next : ByteRange}
    {others : List ByteRange} (horder : h.cursors.byProximity d h.deferred = next :: others)
    (clock : Clock) :
    ∃ o, h.Answered d [(next, o)] ∧
      (h.idle clock d).highlighter.deferred = others ++ postponed next o ∧
      (h.idle clock d).highlighter.Resting d := by
  have hmem : ∀ r, r = next ∨ r ∈ others → r ∈ h.deferred := fun _ => (mem_deferred horder).mpr
  have hnext := hr.takes next (hmem next (.inl rfl))
  obtain ⟨o, stats, hcurrent, hask⟩ := hr.askIdle_answered horder clock
  obtain ⟨stats', happly⟩ := apply_fst
    ({ h with
      deferred := others
      lastRehighlight := some next
      parser := { h.parser with stats } } : Highlighter E) next o
  have hanswered : h.Answered d [(next, o)] := by
    intro answer hanswer
    rw [List.mem_singleton.mp hanswer]
    exact ⟨hr.on, hr.inStep.caughtUp hr.on hr.parsed, hcurrent⟩
  have hleft : ∀ q ∈ others ++ postponed next o, q.start < q.stop ∧ d.Takes q := by
    intro q hq
    rcases List.mem_append.mp hq with hq | hq
    · exact ⟨hr.orderly.deferred q (hmem q (.inr hq)), hr.takes q (hmem q (.inr hq))⟩
    · obtain ⟨hcut, rfl⟩ := mem_postponed hq
      exact ⟨hcut, hanswered.rest_placed (placement_takes hE) hr.inStep.tracks hnext hcut⟩
  unfold idle
  rw [hask]
  simp only [Asked.take, happly]
  refine ⟨o, hanswered, rfl, ?_⟩
  refine ⟨?_, ⟨fun q hq => (by cases hq), fun q hq => (hleft q hq).1, hr.orderly.edits,
    fun hoff => (by cases hoff)⟩, hr.inline, rfl, hr.parsed, rfl, fun q hq => (hleft q hq).2⟩
  exact hr.inStep.congr ⟨rfl, rfl, rfl, rfl, rfl, rfl, hr.on.symm, rfl⟩ hr.inStep.worker

theorem Resting.idle_nothing (hr : h.Resting d)
    (hnone : h.cursors.byProximity d h.deferred = []) (clock : Clock) :
    (h.idle clock d).highlighter = h := by
  unfold idle
  rw [hr.askIdle_nil hnone]
  rfl

theorem Resting.idle (hE : E.AlignsCaptures) (hr : h.Resting d) (clock : Clock) :
    (h.idle clock d).highlighter.Resting d := by
  cases horder : h.cursors.byProximity d h.deferred with
  | nil =>
    rw [hr.idle_nothing horder]
    exact hr
  | cons next others =>
    obtain ⟨o, -, -, hrest⟩ := hr.idle_deferred hE horder clock
    exact hrest

/-- The number of bytes that are deferred. -/
def deferredBytes (h : Highlighter E) : Nat := (h.deferred.map (·.size)).sum

theorem deferredBytes_eq {next : ByteRange} {others : List ByteRange}
    (horder : h.cursors.byProximity d h.deferred = next :: others) :
    h.deferredBytes = next.size + (others.map (·.size)).sum := by
  have hperm := (perm_byProximity h.cursors d h.deferred).map ByteRange.size
  rw [horder] at hperm
  rw [deferredBytes, ← hperm.sum_nat, List.map_cons, List.sum_cons]

/-- Every deferred byte has few captures around it. -/
def Shallow (found : LoadedGrammar E → List Char → List QueryCapture) (h : Highlighter E)
    (d : Document) : Prop :=
  ∀ r ∈ h.deferred, ∀ i, r.contains i = true → h.parser.depth found d i < lookInterval

/-- A piece of idle work makes the deferred bytes fewer if few captures are around the first byte
that it queries. -/
theorem Resting.bytes_lt (hE : E.Reports found) (hr : h.Resting d) {next : ByteRange}
    {others : List ByteRange} (horder : h.cursors.byProximity d h.deferred = next :: others)
    (hdepth : h.parser.depth found d next.start < lookInterval) (clock : Clock) :
    (h.idle clock d).highlighter.deferredBytes < h.deferredBytes := by
  obtain ⟨o, hanswered, hdeferred, -⟩ := hr.idle_deferred hE.alignsCaptures horder clock
  have hmem : next ∈ h.deferred := (mem_deferred horder).mpr (.inl rfl)
  have hlt := size_postponed_lt hE hr.inStep.tracks hanswered (hr.orderly.deferred next hmem) hdepth
  rw [deferredBytes_eq horder, deferredBytes, hdeferred, List.map_append, List.sum_append]
  omega

/-- Without time a deep byte stays deferred. -/
theorem Resting.idle_deep (hE : E.Reports found) (hr : h.Resting d)
    (hbudget : h.parser.limits.budget = .zero) (hlimit : h.parser.Unlimited d) {i : Nat}
    (hi : ∃ r ∈ h.deferred, r.contains i = true)
    (hdepth : lookInterval ≤ h.parser.depth found d i) (clock : Clock) :
    ∃ r ∈ (h.idle clock d).highlighter.deferred, r.contains i = true := by
  obtain ⟨r, hmem, hri⟩ := hi
  obtain ⟨next, others, horder⟩ := exists_next (List.ne_nil_of_mem hmem)
  obtain ⟨o, hanswered, hdeferred, -⟩ := hr.idle_deferred hE.alignsCaptures horder clock
  rw [hdeferred]
  rcases (mem_deferred horder).mp hmem with rfl | hmem
  · obtain ⟨stop, hstop, hpostponed⟩ :=
      postponed_deep hE hr.inStep.tracks hanswered hbudget hlimit hri hdepth
    rw [hpostponed]
    refine ⟨_, List.mem_append_right _ (List.mem_singleton_self _), ?_⟩
    exact ByteRange.contains_iff.mpr ⟨hstop, (ByteRange.contains_iff.mp hri).2⟩
  · exact ⟨r, List.mem_append_left _ hmem, hri⟩

/-- Without time the deferred bytes grow no fewer if the queried range begins with a deep byte. -/
theorem Resting.bytes_le_of_deep (hE : E.Reports found) (hr : h.Resting d)
    (hbudget : h.parser.limits.budget = .zero) (hlimit : h.parser.Unlimited d) {next : ByteRange}
    {others : List ByteRange} (horder : h.cursors.byProximity d h.deferred = next :: others)
    (hdepth : lookInterval ≤ h.parser.depth found d next.start) (clock : Clock) :
    h.deferredBytes ≤ (h.idle clock d).highlighter.deferredBytes := by
  obtain ⟨o, hanswered, hdeferred, -⟩ := hr.idle_deferred hE.alignsCaptures horder clock
  have hmem : next ∈ h.deferred := (mem_deferred horder).mpr (.inl rfl)
  obtain ⟨stop, hstop, hpostponed⟩ := postponed_deep hE hr.inStep.tracks hanswered hbudget hlimit
    (ByteRange.contains_iff.mpr ⟨Nat.le_refl _, hr.orderly.deferred next hmem⟩) hdepth
  rw [deferredBytes_eq horder, deferredBytes, hdeferred, hpostponed, List.map_append,
    List.sum_append, List.map_singleton, List.sum_singleton]
  simp only [ByteRange.size]
  omega

theorem bearing_idle (h : Highlighter E) (clock : Clock) (d : Document) :
    (h.idle clock d).highlighter.bearing = h.bearing :=
  Session.bearing_step ⟨d, h⟩ clock .idle

theorem depth_of_bearing {h' : Highlighter E} (hsame : h'.bearing = h.bearing) (d : Document)
    (i : Nat) : h'.parser.depth found d i = h.parser.depth found d i := by
  have hgrammar : h'.parser.grammar = h.parser.grammar := congrArg Bearing.grammar hsame
  rw [DocumentParser.depth, DocumentParser.depth, hgrammar]

theorem limits_of_bearing {h' : Highlighter E} (hsame : h'.bearing = h.bearing) :
    h'.parser.limits = h.parser.limits := congrArg Bearing.limits hsame

theorem unlimited_of_bearing {h' : Highlighter E} (hsame : h'.bearing = h.bearing)
    (hlimit : h.parser.Unlimited d) : h'.parser.Unlimited d := by
  have hgrammar : h'.parser.grammar = h.parser.grammar := congrArg Bearing.grammar hsame
  intro g hg r
  rw [limits_of_bearing hsame]
  exact hlimit g (hgrammar ▸ hg) r

theorem Resting.idle_shallow (hE : E.AlignsCaptures) (hr : h.Resting d)
    (hshallow : h.Shallow found d) (clock : Clock) :
    (h.idle clock d).highlighter.Shallow found d := by
  cases horder : h.cursors.byProximity d h.deferred with
  | nil =>
    rw [hr.idle_nothing horder]
    exact hshallow
  | cons next others =>
    obtain ⟨o, hanswered, hdeferred, -⟩ := hr.idle_deferred hE horder clock
    have hmem : ∀ r, r = next ∨ r ∈ others → r ∈ h.deferred := fun _ => (mem_deferred horder).mpr
    have htakes := hr.takes next (hmem next (.inl rfl))
    have hsound := hanswered.sound ⟨htakes.ordered, htakes.le_length⟩
    intro r hr i hi
    rw [depth_of_bearing (h.bearing_idle clock d)]
    rw [hdeferred] at hr
    rcases List.mem_append.mp hr with hr | hr
    · exact hshallow r (hmem r (.inr hr)) i hi
    · obtain ⟨-, rfl⟩ := mem_postponed hr
      refine hshallow next (hmem next (.inl rfl)) i ?_
      have := hsound.start
      have := hsound.ordered
      rw [ByteRange.contains_iff] at hi ⊢
      simp only at hi
      omega

/-! ### The first piece of work -/

theorem reparsePending_ask (h : Highlighter E) (clock : Clock) (r : ByteRange) (d : Document) :
    (h.ask clock r d).highlighter.reparsePending = h.reparsePending := by
  unfold ask
  simp only
  split
  · rfl
  · generalize h.parser.queryFollowing clock r d = result
    obtain ⟨p, found⟩ := result
    cases found <;> rfl

/-- Idle work whose parse is not paused leaves no parse for later. -/
theorem parsed_idle (htracks : h.parser.Tracks d) {clock : Clock}
    (hgoes : h.parser.pauses clock (Utf8.byteLength d.chars) = false)
    (hon : h.isDisabled = false) : (h.idle clock d).highlighter.reparsePending = false := by
  have htaken : ∀ a : Asked E, a.highlighter.reparsePending = false →
      a.take.1.reparsePending = false := by
    intro a ha
    obtain ⟨h, answered⟩ := a
    cases answered with
    | none => exact ha
    | some answer =>
      obtain ⟨stats, happly⟩ := h.apply_fst answer.1 answer.2
      simp only [Asked.take, happly]
      exact ha
  refine htaken _ ?_
  unfold askIdle
  rw [if_neg (by simp [hon])]
  split
  · obtain ⟨p, ranges, hparse⟩ := htracks.reparse_eq_ok hgoes
    simp only [hparse]
    exact reparsePending_ask _ ..
  · rename_i hpending
    have hparsed := (Bool.not_eq_true _).mp hpending
    split
    · exact hparsed
    · split
      · exact hparsed
      · exact (reparsePending_ask _ ..).trans hparsed

theorem isDisabled_idle (hon : h.isDisabled = false) (clock : Clock) (d : Document) :
    (h.idle clock d).highlighter.isDisabled = false := by
  have hframe := congrArg Frame.isDisabled (h.frame_askIdle clock d)
  unfold idle
  simp only
  generalize h.askIdle clock d = a at hframe
  obtain ⟨h', answered⟩ := a
  cases answered with
  | none => exact hframe.trans hon
  | some answer => exact congrArg Frame.isDisabled (h'.frame_apply answer.1 answer.2)

/-- A highlighter that is off has no idle work. -/
theorem idle_off (hoff : h.isDisabled = true) (clock : Clock) (d : Document) :
    (h.idle clock d).highlighter = h ∧ (h.idle clock d).more = false := by
  unfold idle askIdle hasIdleWork
  rw [if_pos hoff, hoff]
  exact ⟨rfl, rfl⟩

/-! ### Work done over and over -/

/-- A highlighter after so many pieces of idle work. -/
def idled (h : Highlighter E) (d : Document) (clocks : Nat → Clock) : Nat → Highlighter E
  | 0 => h
  | n + 1 => ((h.idled d clocks n).idle (clocks n) d).highlighter

/-- Whether work remains after so many pieces and another one. -/
def idlesOn (h : Highlighter E) (d : Document) (clocks : Nat → Clock) (n : Nat) : Bool :=
  ((h.idled d clocks n).idle (clocks n) d).more

variable {clocks : Nat → Clock} {newest : Option (QueryJob E)}

theorem idled_off (hoff : h.isDisabled = true) (d : Document) (clocks : Nat → Clock) (n : Nat) :
    h.idled d clocks n = h := by
  induction n with
  | zero => rfl
  | succ n ih =>
    rw [idled, ih]
    exact (idle_off hoff _ d).1

theorem bearing_idled (h : Highlighter E) (d : Document) (clocks : Nat → Clock) (n : Nat) :
    (h.idled d clocks n).bearing = h.bearing := by
  induction n with
  | zero => rfl
  | succ n ih => exact (bearing_idle _ _ d).trans ih

/-- Once a highlighter rests it rests from then on. -/
theorem Resting.idled (hE : E.AlignsCaptures) (hr : (h.idled d clocks 1).Resting d) (n : Nat) :
    (h.idled d clocks (n + 1)).Resting d := by
  induction n with
  | zero => exact hr
  | succ n ih => exact ih.idle hE _

theorem Resting.idlesOn_eq (hE : E.AlignsCaptures) (ho : h.Orderly) (ha : h.Attended newest)
    (hr : (h.idled d clocks 1).Resting d) (n : Nat) :
    h.idlesOn d clocks n = !(h.idled d clocks (n + 1)).deferred.isEmpty := by
  rw [← (hr.idled hE n).hasPendingWork]
  cases n with
  | zero => exact ho.more_idle ha _ d
  | succ n =>
    have hrest := hr.idled hE n
    have hfree : (h.idled d clocks (n + 1)).Attended none := .of_not_waiting hrest.free
    exact hrest.orderly.more_idle hfree _ d

theorem Resting.idled_shallow (hE : E.AlignsCaptures) (hr : (h.idled d clocks 1).Resting d)
    (hshallow : (h.idled d clocks 1).Shallow found d) (n : Nat) :
    (h.idled d clocks (n + 1)).Shallow found d := by
  induction n with
  | zero => exact hshallow
  | succ n ih => exact (hr.idled hE n).idle_shallow hE ih _

/-- Without time a deep byte stays deferred for good. -/
theorem Resting.idled_deep (hE : E.Reports found) (hr : (h.idled d clocks 1).Resting d)
    (hbudget : h.parser.limits.budget = .zero) (hlimit : h.parser.Unlimited d) {i : Nat}
    (hi : ∃ r ∈ (h.idled d clocks 1).deferred, r.contains i = true)
    (hdepth : lookInterval ≤ h.parser.depth found d i) (n : Nat) :
    ∃ r ∈ (h.idled d clocks (n + 1)).deferred, r.contains i = true := by
  induction n with
  | zero => exact hi
  | succ n ih =>
    have hsame := h.bearing_idled d clocks (n + 1)
    refine (hr.idled hE.alignsCaptures n).idle_deep hE ?_ (unlimited_of_bearing hsame hlimit) ih
      ?_ _
    · rw [limits_of_bearing hsame]
      exact hbudget
    · rw [depth_of_bearing hsame]
      exact hdepth

/-- Where few captures are around every deferred byte, idle work comes to an end. -/
theorem Resting.idled_ends (hE : E.Reports found) (hr : (h.idled d clocks 1).Resting d)
    (hshallow : (h.idled d clocks 1).Shallow found d) :
    ∃ n, (h.idled d clocks (n + 1)).deferred = [] := by
  -- The deferred bytes grow fewer with each piece of work.
  have hends : ∀ bytes n, (h.idled d clocks (n + 1)).deferredBytes = bytes →
      ∃ m, (h.idled d clocks (m + 1)).deferred = [] := by
    intro bytes
    induction bytes using Nat.strongRecOn with
    | ind bytes ih =>
      intro n hbytes
      by_cases hsome : (h.idled d clocks (n + 1)).deferred = []
      · exact ⟨n, hsome⟩
      · have hrest := hr.idled hE.alignsCaptures n
        obtain ⟨next, others, horder⟩ := exists_next hsome
        have hmem := (mem_deferred horder).mpr (.inl rfl)
        have hdepth := hr.idled_shallow hE.alignsCaptures hshallow n next hmem next.start
          (ByteRange.contains_iff.mpr ⟨Nat.le_refl _, hrest.orderly.deferred next hmem⟩)
        have hlt := hrest.bytes_lt hE horder hdepth (clocks (n + 1))
        exact ih _ (hbytes ▸ hlt) (n + 1) rfl
  exact hends _ 0 rfl

theorem Resting.idlesOn_ends (hE : E.Reports found) (ho : h.Orderly) (ha : h.Attended newest)
    (hr : (h.idled d clocks 1).Resting d) (hshallow : (h.idled d clocks 1).Shallow found d) :
    ∃ n, h.idlesOn d clocks n = false := by
  obtain ⟨n, hnone⟩ := hr.idled_ends hE hshallow
  refine ⟨n, ?_⟩
  rw [hr.idlesOn_eq hE.alignsCaptures ho ha, hnone]
  rfl

/-- If idle work without time ends, few captures are around every byte that was deferred. -/
theorem Resting.shallow_of_ends (hE : E.Reports found) (ho : h.Orderly) (ha : h.Attended newest)
    (hr : (h.idled d clocks 1).Resting d) (hbudget : h.parser.limits.budget = .zero)
    (hlimit : h.parser.Unlimited d) (hends : ∃ n, h.idlesOn d clocks n = false) :
    (h.idled d clocks 1).Shallow found d := by
  obtain ⟨n, hends⟩ := hends
  rw [hr.idlesOn_eq hE.alignsCaptures ho ha, Bool.not_eq_false', List.isEmpty_iff] at hends
  intro r hmem i hi
  refine Nat.lt_of_not_le fun hdeep => ?_
  rw [depth_of_bearing (h.bearing_idled d clocks 1)] at hdeep
  obtain ⟨q, hq, -⟩ := hr.idled_deep hE hbudget hlimit ⟨r, hmem, hi⟩ hdeep n
  rw [hends] at hq
  cases hq

end Highlighter

/-! ### Hosts -/

namespace Host

variable {w : Host E} {newest : Option (QueryJob E)}

/-- A host without a worker and with nothing to parse has only deferred ranges to see to. -/
theorem Working.resting (hw : w.Working Document.Takes (fun _ => False) [])
    (ho : w.session.highlighter.Orderly) (ha : w.session.highlighter.Attended newest)
    (hinline : w.session.highlighter.worker = none)
    (hon : w.session.highlighter.isDisabled = false)
    (hparsed : w.session.highlighter.reparsePending = false) :
    w.session.highlighter.Resting w.session.document where
  inStep := hw.inStep
  orderly := ho
  inline := hinline
  on := hon
  parsed := hparsed
  free := by
    refine ha.waiting_eq_none ((Bool.not_eq_true _).mpr hparsed) ?_
    rw [Highlighter.awaitsWorker, hinline]
    exact Bool.false_ne_true
  takes := hw.owes.deferred

/-- Idle work that no worker and no paused parse holds up leaves only deferred ranges. -/
theorem Working.rests (hE : E.OrdersDifferences) (halign : E.AlignsCaptures)
    (hw : w.Working Document.Takes (fun _ => False) []) (ho : w.session.highlighter.Orderly)
    (ha : w.session.highlighter.Attended newest) (hfits : w.session.document.length < wordSize)
    (hinline : w.session.highlighter.worker = none)
    (hon : w.session.highlighter.isDisabled = false) {clock : Clock}
    (hgoes : w.session.highlighter.parser.pauses clock
      (Utf8.byteLength w.session.document.chars) = false) :
    (w.session.highlighter.idle clock w.session.document).highlighter.Resting
      w.session.document := by
  obtain ⟨ho', ha'⟩ := Session.attended_step hE hw.inStep ho ha clock .idle
  exact Working.resting (w := w.step clock .idle)
    (hw.step (placement_takes halign) hE (fun _ => id) clock .idle hfits) ho' ha'
    (Session.worker_run hinline [(clock, .idle)]) (Highlighter.isDisabled_idle hon clock _)
    (Highlighter.parsed_idle hw.inStep.tracks hgoes hon)

/-- When idle work ends. Without a worker, in every state that a run reaches, idle work whose parse
is not paused comes to an end if few captures are around every byte that its first piece leaves
deferred; few are fewer than lie between two looks at the clock. If queries get no time and keep
within their match limit, it comes to an end only then. Likewise for each piece that does not parse:
the deferred bytes grow fewer if few captures are around the first byte that it queries, and without
time only then. -/
theorem idle_ends_iff (hE : E.Reports found) (config : Config)
    (hinline : config.backgroundQueries = false) (theme : Theme) (d : Document)
    (steps : List (Clock × Action E)) (hfits : (opened config theme d).Fits steps)
    (clocks : Nat → Clock) :
    let s := ((opened config theme d).run steps).session
    let h := s.highlighter
    let after := h.idled s.document clocks
    h.parser.pauses (clocks 0) (Utf8.byteLength s.document.chars) = false →
    ((after 1).Shallow found s.document → ∃ n, h.idlesOn s.document clocks n = false) ∧
      (config.queryBudgetMicros = 0 → h.parser.Unlimited s.document →
        (∃ n, h.idlesOn s.document clocks n = false) → (after 1).Shallow found s.document) ∧
      ∀ n next, (after n).reparsePending = false →
        ((after n).cursors.byProximity s.document (after n).deferred).head? = some next →
        (h.parser.depth found s.document next.start < lookInterval →
          (after (n + 1)).deferredBytes < (after n).deferredBytes) ∧
        (config.queryBudgetMicros = 0 → h.parser.Unlimited s.document →
          (after (n + 1)).deferredBytes < (after n).deferredBytes →
          h.parser.depth found s.document next.start < lookInterval) := by
  intro s h after hgoes
  have hsession : s = (Session.opened config theme d).run steps := run_session _ steps
  have hreached := Session.attended_reached hE.ordersDifferences config theme d steps
  rw [← hsession] at hreached
  obtain ⟨ho, ha⟩ : h.Orderly ∧ h.Attended _ := hreached
  have hbudget : config.queryBudgetMicros = 0 → h.parser.limits.budget = .zero := by
    intro hzero
    have hlimits := (Session.opened config theme d : Session E).limits_run steps
    rw [← hsession] at hlimits
    rw [hlimits]
    simp only [Session.opened, Highlighter.create, DocumentParser.limits, Config.queryBounds,
      Config.queryBudget, hzero]
    rfl
  -- A highlighter that is off has nothing deferred, and idle work leaves it as it is.
  by_cases hoff : h.isDisabled = true
  · have hafter : ∀ n, after n = h := Highlighter.idled_off hoff s.document clocks
    have hnone : h.deferred = [] := (ho.off hoff).2
    refine ⟨fun _ => ⟨0, (Highlighter.idle_off hoff _ _).2⟩, fun _ _ _ r hr => ?_,
      fun n next _ hnext => ?_⟩
    · rw [hafter, hnone] at hr
      cases hr
    · have hmem := List.mem_of_head? hnext
      rw [Highlighter.mem_byProximity, hafter, hnone] at hmem
      cases hmem
  have hon := Highlighter.isDisabled_of_not hoff
  have hworker : h.worker = none := by
    change s.highlighter.worker = none
    rw [hsession]
    exact Session.worker_run (Highlighter.worker_create hinline theme) steps
  have hworking := working_run (placement_takes hE.alignsCaptures) hE.ordersDifferences config
    theme d hfits
  have hrest : (after 1).Resting s.document :=
    hworking.rests hE.ordersDifferences hE.alignsCaptures ho ha hfits.last hworker hon hgoes
  refine ⟨hrest.idlesOn_ends hE ho ha,
    fun hzero hlimit => hrest.shallow_of_ends hE ho ha (hbudget hzero) hlimit,
    fun n next hparsed hnext => ?_⟩
  obtain ⟨others, horder⟩ := List.head?_eq_some_iff.mp hnext
  -- The first piece finds the highlighter at rest only if there is nothing to parse.
  have hrest' : (after n).Resting s.document := by
    cases n with
    | zero => exact hworking.resting ho ha hworker hon hparsed
    | succ n => exact hrest.idled hE.alignsCaptures n
  have hsame := h.bearing_idled s.document clocks n
  rw [← Highlighter.depth_of_bearing hsame]
  refine ⟨fun hfew => hrest'.bytes_lt hE horder hfew _, fun hzero hlimit hlt => ?_⟩
  refine Nat.lt_of_not_le fun hdeep => Nat.not_le_of_lt hlt ?_
  refine hrest'.bytes_le_of_deep hE ?_ (Highlighter.unlimited_of_bearing hsame hlimit) horder
    hdeep _
  rw [Highlighter.limits_of_bearing hsame]
  exact hbudget hzero

/-- In a text of many commas idle work ends if each comma is captured alone. If all that follows is
captured with it, the text past the sixty-third comma is queried again for ever. -/
theorem idle_ends_iff_long :
    let config : Config := { queryBudgetMicros := 0 }
    let clocks := fun _ : Nat => Clock.steady
    let flat := ((opened config (.plain "plain") Commas.long).run Commas.longSteps).session
    let nested := ((opened config (.plain "plain") Commas.long).run Commas.nestedSteps).session
    (flat.highlighter.deferred = [⟨63, 130⟩] ∧
      ∃ n, flat.highlighter.idlesOn flat.document clocks n = false) ∧
      nested.highlighter.deferred = [⟨63, 130⟩] ∧
        ∀ n, nested.highlighter.idlesOn nested.document clocks n = true := by
  intro config clocks flat nested
  have hflat : (flat.highlighter.idled flat.document clocks 1).Shallow Commas.found
      flat.document := by
    have hdeferred : (flat.highlighter.idled flat.document clocks 1).deferred = [⟨126, 130⟩] := by
      decide +kernel
    intro r hr i hi
    rw [hdeferred, List.mem_singleton] at hr
    rw [hr, ByteRange.contains_iff] at hi
    have hlast : ∀ k, k < 4 → (flat.highlighter.idled flat.document clocks 1).parser.depth
        Commas.found flat.document (126 + k) < lookInterval := by decide +kernel
    obtain ⟨k, rfl⟩ := Nat.exists_eq_add_of_le hi.1
    exact hlast k (Nat.lt_of_add_lt_add_left hi.2)
  have hnested : ¬ (nested.highlighter.idled nested.document clocks 1).Shallow Commas.foundNested
      nested.document := by
    have hdeferred :
        (nested.highlighter.idled nested.document clocks 1).deferred = [⟨63, 130⟩] := by
      decide +kernel
    intro hshallow
    have hfew := hshallow ⟨63, 130⟩ (by rw [hdeferred]; exact List.mem_singleton_self _) 63 rfl
    exact absurd hfew (by decide +kernel)
  have hends := (idle_ends_iff Commas.reports config rfl (.plain "plain") Commas.long
    Commas.longSteps Commas.long_fits clocks (by decide +kernel)).1 hflat
  have hlasts := (idle_ends_iff Commas.nested_reports config rfl (.plain "plain") Commas.long
    Commas.nestedSteps Commas.nested_fits clocks (by decide +kernel)).2.1 rfl fun _ _ _ => rfl
  refine ⟨⟨by decide +kernel, hends⟩, by decide +kernel, fun n => ?_⟩
  rw [← Bool.not_eq_false]
  exact fun hn => hnested (hlasts ⟨n, hn⟩)

end Host

end LiveHighlight
