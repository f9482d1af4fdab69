import LiveHighlight.Highlight.DocumentParser
import LiveHighlight.Proofs.Span.Window
import LiveHighlight.Proofs.Text.Edits

/-! Answers of queries. What is assumed of a parser is stated first. From it follows that an answer
covers the beginning of the range asked for, says of each covered byte what a query of the whole
text would say, and leaves the rest for later only if it is not complete. -/

namespace LiveHighlight

/-- Whether a reported capture has a byte in a range, or around it. -/
def QueryCapture.meets (r : ByteRange) (c : QueryCapture) : Bool :=
  r.start < c.range.stop && c.range.start < r.stop

/-- A grammar whose query was compiled for its language. -/
def LoadedGrammar.Compiled {E : SyntaxEngine} (g : LoadedGrammar E) : Prop :=
  ∃ text, CompiledQuery.compile g.language text = .ok g.query

namespace SyntaxEngine

variable {E : SyntaxEngine}

/-- A tree moved along edits that were made in a row. -/
def reshapeAll (tree : E.Tree) (es : List TextEdit) : E.Tree :=
  es.foldl (fun tree e => E.reshape tree e.bytes) tree

@[simp]
theorem reshapeAll_nil (tree : E.Tree) : reshapeAll tree [] = tree := rfl

theorem reshapeAll_concat (tree : E.Tree) (es : List TextEdit) (e : TextEdit) :
    reshapeAll tree (es ++ [e]) = E.reshape (reshapeAll tree es) e.bytes := by
  simp [reshapeAll]

/-- Ranges in which two trees differ are never reversed. -/
def OrdersDifferences (E : SyntaxEngine) : Prop :=
  ∀ old new, ∀ r ∈ E.difference old new, r.start ≤ r.stop

/-- Captures begin between two characters. -/
def AlignsCaptures (E : SyntaxEngine) : Prop :=
  ∀ (g : LoadedGrammar E) (text : List Char) (r : ByteRange), g.Compiled →
    ∀ c ∈ E.captures g.query.query (E.parse g.language text) text r,
      Utf8.isBoundary text c.range.start = true

end SyntaxEngine

/-- The capture that a byte of a text has by all captures of the text, where `found` gives these. -/
def LoadedGrammar.flat {E : SyntaxEngine} (g : LoadedGrammar E)
    (found : LoadedGrammar E → List Char → List QueryCapture) (d : Document) (i : Nat) :
    Option Capture :=
  FoundCapture.innermost ((found g d.chars).filterMap g.query.raw) i

/-- What is assumed of a parser: `found` gives the captures of a text, in the order of their starts
and nested; a query within its match limit reports those of them that meet its range; and wherever
the captures of a text say something else than they did at an earlier parse, the trees differ there
or the text was inserted since. -/
structure SyntaxEngine.Faithful (E : SyntaxEngine)
    (found : LoadedGrammar E → List Char → List QueryCapture) : Prop where
  ordersDifferences : E.OrdersDifferences
  alignsCaptures : E.AlignsCaptures
  sorted : ∀ g text, g.Compiled →
    (found g text).Pairwise fun a b => a.range.start ≤ b.range.start
  laminar : ∀ g text, g.Compiled →
    ∀ a ∈ found g text, ∀ b ∈ found g text, a.range.Laminar b.range
  ranged : ∀ (g : LoadedGrammar E) text r limit, g.Compiled → r.start < r.stop →
    E.exceeds g.query.query (E.parse g.language text) text r limit = false →
    E.captures g.query.query (E.parse g.language text) text r =
      (found g text).filter (QueryCapture.meets r)
  reported : ∀ (g : LoadedGrammar E) d₀ es d, g.Compiled → Document.Trail d₀ es d →
    ∀ i, i < d.length → g.flat found d i ≠ TextEdit.spliceAll es none (g.flat found d₀) i →
      ∃ r ∈ E.difference (SyntaxEngine.reshapeAll (E.parse g.language d₀.chars) es)
          (E.parse g.language d.chars) ++ TextEdit.insertedRanges es, r.contains i = true

/-- What holds of every answer to a query of a range of a text. -/
structure QueryAnswer.Sound (o : QueryAnswer) (d : Document) (r : ByteRange) : Prop where
  start : o.covered.start = r.start
  ordered : o.covered.start ≤ o.covered.stop
  stop : o.covered.stop ≤ d.length
  unfinished : o.covered.stop < r.stop → o.complete = false
  canonical : Spans.Canonical o.spans
  within : Spans.Within o.covered o.spans

theorem QueryAnswer.sound_nothing {d : Document} {r : ByteRange} (hr : r.start ≤ r.stop)
    (hd : r.stop ≤ d.length) : (QueryAnswer.nothing r).Sound d r where
  start := rfl
  ordered := hr
  stop := hd
  unfinished h := absurd h (Nat.lt_irrefl _)
  canonical := .nil
  within := by simp [Spans.Within, nothing]

namespace CompiledQuery

variable {E : SyntaxEngine}

/-- What a query takes in is a beginning of what is reported, up to the capture it stops at. -/
theorem takeInTime_append (late : Nat → Bool) (seen : Nat) (cs : List QueryCapture) :
    ∃ rest, cs = (takeInTime late seen cs).1 ++ (takeInTime late seen cs).2.toList ++ rest ∧
      ((takeInTime late seen cs).2 = none → rest = []) := by
  induction cs generalizing seen with
  | nil => exact ⟨[], rfl, fun _ => rfl⟩
  | cons c cs ih =>
    rw [takeInTime]
    split
    · exact ⟨cs, rfl, fun hnone => by cases hnone⟩
    · obtain ⟨rest, hcs, hrest⟩ := ih (seen + 1)
      refine ⟨rest, ?_, hrest⟩
      simp only [List.cons_append]
      rw [← hcs]

/-- Where a query comes to. -/
def reach (r : ByteRange) (stopped : Option QueryCapture) : Nat :=
  (stopped.map fun c => max r.start (min c.range.start r.stop)).getD r.stop

variable (q : CompiledQuery E) (tree : E.Tree) (d : Document) (r : ByteRange)
  (limits : QueryBounds) (elapsed : Nat → Duration)

/-- What a query takes in of the reported captures, and where it stops. -/
def taken : List QueryCapture × Option QueryCapture :=
  takeInTime (fun seen => limits.budget.nanos ≤ (elapsed seen).nanos) 0
    (E.captures q.query tree d.chars r)

theorem taken_append :
    ∃ rest, E.captures q.query tree d.chars r = (q.taken tree d r limits elapsed).1 ++
        (q.taken tree d r limits elapsed).2.toList ++ rest ∧
      ((q.taken tree d r limits elapsed).2 = none → rest = []) :=
  takeInTime_append _ _ _

theorem run_covered :
    (q.run tree d r limits elapsed).covered =
      ⟨r.start, reach r (q.taken tree d r limits elapsed).2⟩ := rfl

theorem run_spans :
    (q.run tree d r limits elapsed).spans =
      Spans.overlay ((q.taken tree d r limits elapsed).1.filterMap q.raw)
        (q.run tree d r limits elapsed).covered := rfl

theorem run_complete :
    (q.run tree d r limits elapsed).complete =
      ((q.taken tree d r limits elapsed).2.isNone &&
        !(q.run tree d r limits elapsed).exceeded) := rfl

variable {q tree d r limits elapsed}

theorem start_le_reach (hr : r.start ≤ r.stop) (stopped : Option QueryCapture) :
    r.start ≤ reach r stopped ∧ reach r stopped ≤ r.stop := by
  cases stopped <;> simp only [reach, Option.map_none, Option.map_some, Option.getD_none,
    Option.getD_some] <;> omega

theorem sound_run (hr : r.start ≤ r.stop) (hd : r.stop ≤ d.length) :
    (q.run tree d r limits elapsed).Sound d r where
  start := rfl
  ordered := (start_le_reach hr _).1
  stop := Nat.le_trans (start_le_reach hr _).2 hd
  unfinished h := by
    rw [run_complete, Bool.and_eq_false_iff]
    left
    rw [run_covered] at h
    cases hstopped : (q.taken tree d r limits elapsed).2 with
    | none => rw [hstopped] at h; exact absurd h (Nat.lt_irrefl _)
    | some c => rfl
  canonical := Spans.canonical_overlay _ _
  within := Spans.within_overlay _ _

/-- A query stops between two characters if captures begin there. -/
theorem isValid_run_stop (hr : d.Takes r) (haligned : ∀ c ∈ E.captures q.query tree d.chars r,
    Utf8.isBoundary d.chars c.range.start = true) :
    d.isValid (q.run tree d r limits elapsed).covered.stop = true := by
  rw [run_covered]
  cases hstopped : (q.taken tree d r limits elapsed).2 with
  | none => exact hr.stop
  | some c =>
    obtain ⟨rest, hcs, -⟩ := q.taken_append tree d r limits elapsed
    have hc : c ∈ E.captures q.query tree d.chars r := by
      rw [hcs, hstopped]
      simp
    have hstart := hr.ordered
    simp only [reach, Option.map_some, Option.getD_some]
    rcases Nat.le_total c.range.start r.stop with hle | hle
    · rw [Nat.min_eq_left hle]
      rcases Nat.le_total r.start c.range.start with hle' | hle'
      · rw [Nat.max_eq_right hle']
        exact haligned c hc
      · rw [Nat.max_eq_left hle']
        exact hr.start
    · rw [Nat.min_eq_right hle, Nat.max_eq_right hstart]
      exact hr.stop

theorem raw_range {c : QueryCapture} {f : FoundCapture} (h : q.raw c = some f) :
    f.range = c.range := by
  unfold raw at h
  cases hname : q.capture c.index with
  | none => rw [hname] at h; cases h
  | some name => rw [hname] at h; cases h; rfl

/-- Choosing captures by their ranges comes before or after looking their names up. -/
theorem filterMap_raw_filter (cs : List QueryCapture) (p : ByteRange → Bool) :
    (cs.filterMap q.raw).filter (fun c => p c.range) =
      (cs.filter fun c => p c.range).filterMap q.raw := by
  induction cs with
  | nil => rfl
  | cons c cs ih =>
    rw [List.filterMap_cons, List.filter_cons]
    cases hraw : q.raw c with
    | none =>
      simp only
      rw [ih]
      split
      · rw [List.filterMap_cons, hraw]
      · rfl
    | some f =>
      simp only
      rw [List.filter_cons, raw_range hraw, ih]
      split
      · rw [List.filterMap_cons, hraw]
      · rfl

theorem laminar_filterMap_raw {cs : List QueryCapture}
    (h : ∀ a ∈ cs, ∀ b ∈ cs, a.range.Laminar b.range) :
    ∀ a ∈ cs.filterMap q.raw, ∀ b ∈ cs.filterMap q.raw, a.range.Laminar b.range := by
  intro a ha b hb
  obtain ⟨ca, hca, hraw⟩ := List.mem_filterMap.mp ha
  obtain ⟨cb, hcb, hraw'⟩ := List.mem_filterMap.mp hb
  rw [raw_range hraw, raw_range hraw']
  exact h ca hca cb hcb

/-- Captures that do not meet a range add nothing to it. -/
theorem overlay_meeting (cs : List QueryCapture) (r : ByteRange) :
    Spans.overlay ((cs.filter (QueryCapture.meets r)).filterMap q.raw) r =
      Spans.overlay (cs.filterMap q.raw) r := by
  have hfilter := q.filterMap_raw_filter cs fun s => r.start < s.stop && s.start < r.stop
  refine (congrArg (Spans.overlay · r) hfilter.symm).trans (Spans.overlay_filter fun c _ hc => ?_)
  rw [FoundCapture.meets_iff] at hc
  rw [Bool.and_eq_true, decide_eq_true_eq, decide_eq_true_eq]
  exact hc.2

/-- A query that is not stopped covers its range and lays out all that is reported. -/
theorem run_unstopped (hnone : (q.taken tree d r limits elapsed).2 = none) :
    (q.run tree d r limits elapsed).covered = r ∧
      (q.run tree d r limits elapsed).spans =
        Spans.overlay ((E.captures q.query tree d.chars r).filterMap q.raw) r := by
  have hcovered : (q.run tree d r limits elapsed).covered = r := by
    rw [run_covered, hnone]
    rfl
  obtain ⟨rest, hcs, hrest⟩ := q.taken_append tree d r limits elapsed
  rw [hrest hnone, hnone, Option.toList_none, List.append_nil, List.append_nil] at hcs
  exact ⟨hcovered, by rw [run_spans, hcovered, hcs]⟩

/-- What a query gets past the start of its range without taking in begins where it comes to or
later. -/
theorem exists_left (hsorted : (E.captures q.query tree d.chars r).Pairwise fun a b =>
      a.range.start ≤ b.range.start)
    (hreach : r.start < reach r (q.taken tree d r limits elapsed).2) :
    ∃ left, E.captures q.query tree d.chars r = (q.taken tree d r limits elapsed).1 ++ left ∧
      ∀ c ∈ left, reach r (q.taken tree d r limits elapsed).2 ≤ c.range.start := by
  obtain ⟨rest, hcs, hrest⟩ := q.taken_append tree d r limits elapsed
  rw [List.append_assoc] at hcs
  refine ⟨_, hcs, ?_⟩
  cases hstopped : (q.taken tree d r limits elapsed).2 with
  | none =>
    rw [hrest hstopped]
    simp
  | some first =>
    rw [hstopped] at hcs hreach
    simp only [reach, Option.map_some, Option.getD_some] at hreach ⊢
    have hfirst : ∀ c ∈ [first] ++ rest, first.range.start ≤ c.range.start := by
      rw [hcs] at hsorted
      intro c hc
      rcases List.mem_cons.mp hc with rfl | hc
      · exact Nat.le_refl _
      · exact (List.pairwise_cons.mp (List.pairwise_append.mp hsorted).2.1).1 c hc
    intro c hc
    have := hfirst c hc
    omega

/-- Of what it covers a query says what all reported captures say, wherever it is stopped, if they
are reported in the order of their starts. -/
theorem run_spans_eq (hr : r.start ≤ r.stop)
    (hsorted : (E.captures q.query tree d.chars r).Pairwise fun a b =>
      a.range.start ≤ b.range.start) :
    (q.run tree d r limits elapsed).spans =
      Spans.inside (Spans.overlay ((E.captures q.query tree d.chars r).filterMap q.raw) r)
        (q.run tree d r limits elapsed).covered := by
  have hbounds := start_le_reach hr (q.taken tree d r limits elapsed).2
  rcases Nat.lt_or_ge r.start (reach r (q.taken tree d r limits elapsed).2) with hreach | hreach
  · obtain ⟨left, hcs, hleft⟩ := exists_left hsorted hreach
    rw [run_spans, run_covered, hcs, List.filterMap_append]
    refine Spans.overlay_front _ _ hbounds.2 fun f hf => ?_
    obtain ⟨c, hc, hraw⟩ := List.mem_filterMap.mp hf
    rw [raw_range hraw]
    exact hleft c hc
  · -- A query that gets nowhere covers nothing.
    rw [run_spans, run_covered]
    refine (Spans.canonical_overlay _ _).eq_inside (Spans.canonical_overlay _ _)
      (Spans.within_overlay _ _) fun i hi => ?_
    rw [ByteRange.contains_iff] at hi
    simp only at hi
    omega

end CompiledQuery

namespace LoadedGrammar

variable {E : SyntaxEngine} {found : LoadedGrammar E → List Char → List QueryCapture}
  {g : LoadedGrammar E} {d : Document} {r : ByteRange} {limits : QueryBounds}

/-- A query within its match limit says of every covered byte what all captures of the text say. -/
theorem captureAt_run (hE : E.Faithful found) (hg : g.Compiled) {elapsed : Nat → Duration}
    (hr : r.start ≤ r.stop)
    (hexceeded : (g.query.run (E.parse g.language d.chars) d r limits elapsed).exceeded = false)
    {i : Nat} (hi : (g.query.run (E.parse g.language d.chars) d r limits
      elapsed).covered.contains i = true) :
    Spans.captureAt (g.query.run (E.parse g.language d.chars) d r limits elapsed).spans i =
      g.flat found d i := by
  rw [ByteRange.contains_iff, CompiledQuery.run_covered] at hi
  simp only at hi
  have hreach := CompiledQuery.start_le_reach hr
    (g.query.taken (E.parse g.language d.chars) d r limits elapsed).2
  have hall := hE.ranged g d.chars r limits.matchLimit hg (by omega) hexceeded
  have hsorted := (hE.sorted g d.chars hg).filter (QueryCapture.meets r)
  rw [CompiledQuery.run_spans_eq hr (hall ▸ hsorted), CompiledQuery.run_covered,
    (Spans.canonical_overlay _ _).sorted.captureAt_inside hi, hall, CompiledQuery.overlay_meeting,
    Spans.captureAt_overlay (CompiledQuery.laminar_filterMap_raw (hE.laminar g d.chars hg))
      ⟨hi.1, by omega⟩, flat]

end LoadedGrammar

/-! ### Queries over an extended range -/

namespace CompiledQuery

variable {E : SyntaxEngine} {q : CompiledQuery E} {tree : E.Tree} {d : Document} {r : ByteRange}
  {limits : QueryBounds} {clock : Clock}

/-- The answer of a query that may be extended is that of one query, over the range or over one
that ends later, with a row. -/
theorem runFollowing_cases (q : CompiledQuery E) (tree : E.Tree) (d : Document) (r : ByteRange)
    (limits : QueryBounds) (clock : Clock) :
    ∃ stop run, (stop = r.stop ∨ (r.stop < stop ∧ d.isValid stop = true)) ∧
      q.runFollowing tree d r limits clock =
        q.run tree d ⟨r.start, stop⟩ limits (clock.querying run) := by
  rw [runFollowing]
  simp only
  split
  · exact ⟨r.stop, 0, .inl rfl, rfl⟩
  · split
    · exact ⟨r.stop, 0, .inl rfl, rfl⟩
    · rename_i hstop
      exact ⟨_, 1, .inr ⟨Nat.lt_of_not_le hstop, by simp [extendedEnd]⟩, rfl⟩

/-- A query that may be extended answers for its range. -/
theorem sound_runFollowing (hr : r.start ≤ r.stop) (hd : r.stop ≤ d.length) :
    (q.runFollowing tree d r limits clock).Sound d r := by
  obtain ⟨stop, run, hstop, hrun⟩ := runFollowing_cases q tree d r limits clock
  have hle : r.stop ≤ stop := by omega
  have hlength : stop ≤ d.length := by
    rcases hstop with rfl | ⟨-, hvalid⟩
    · exact hd
    · exact Document.le_length_of_isValid hvalid
  rw [hrun]
  have hsound : (q.run tree d ⟨r.start, stop⟩ limits (clock.querying run)).Sound d
      ⟨r.start, stop⟩ := sound_run (Nat.le_trans hr hle) hlength
  exact ⟨hsound.start, hsound.ordered, hsound.stop,
    fun h => hsound.unfinished (Nat.lt_of_lt_of_le h hle), hsound.canonical, hsound.within⟩

theorem isValid_runFollowing_stop (hr : d.Takes r)
    (haligned : ∀ r, ∀ c ∈ E.captures q.query tree d.chars r,
      Utf8.isBoundary d.chars c.range.start = true) :
    d.isValid (q.runFollowing tree d r limits clock).covered.stop = true := by
  obtain ⟨stop, run, hstop, hrun⟩ := runFollowing_cases q tree d r limits clock
  have hordered := hr.ordered
  have htakes : d.Takes ⟨r.start, stop⟩ := by
    rcases hstop with rfl | ⟨hlt, hvalid⟩
    · exact hr
    · exact ⟨by simp only; omega, hr.start, hvalid⟩
  rw [hrun]
  exact isValid_run_stop htakes (haligned _)

end CompiledQuery

/-- A query within its match limit says of every covered byte what all captures of the text say,
also if it was extended. -/
theorem LoadedGrammar.captureAt_runFollowing {E : SyntaxEngine}
    {found : LoadedGrammar E → List Char → List QueryCapture} (hE : E.Faithful found)
    {g : LoadedGrammar E} (hg : g.Compiled) {d : Document} {r : ByteRange} {limits : QueryBounds}
    {clock : Clock} (hr : r.start ≤ r.stop)
    (hexceeded : (g.query.runFollowing (E.parse g.language d.chars) d r limits
      clock).exceeded = false) {i : Nat}
    (hi : (g.query.runFollowing (E.parse g.language d.chars) d r limits
      clock).covered.contains i = true) :
    Spans.captureAt (g.query.runFollowing (E.parse g.language d.chars) d r limits clock).spans i =
      g.flat found d i := by
  obtain ⟨stop, run, hstop, hrun⟩ :=
    CompiledQuery.runFollowing_cases g.query (E.parse g.language d.chars) d r limits clock
  rw [hrun] at hexceeded hi ⊢
  exact captureAt_run hE hg (by simp only; omega) hexceeded hi

end LiveHighlight
