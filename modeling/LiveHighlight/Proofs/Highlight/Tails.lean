import LiveHighlight.Proofs.Highlight.Commas
import LiveHighlight.Proofs.Span.Rewrite

/-! Queries that are stopped. Such a query says of the beginning that it covers what one without a
limit says there, and querying what is left of the range again and again leaves the spans that one
query of all of the range would leave. -/

namespace LiveHighlight

namespace Spans

variable {before whole : List Span} {start p q : Nat} {r : ByteRange}

/-! ### Parts of spans, spliced one after the other -/

theorem canonical_overwrite_inside (hbefore : Canonical before) (hwhole : Canonical whole)
    (hr : r.start ≤ r.stop) : Canonical (overwrite before r (inside whole r)) :=
  hbefore.overwrite hr (hwhole.sorted.ordered_inside r) (hwhole.sorted.within_inside r)

theorem captureAt_overwrite_inside (hbefore : Canonical before) (hwhole : Canonical whole)
    (hr : r.start ≤ r.stop) (i : Nat) :
    captureAt (overwrite before r (inside whole r)) i =
      if r.contains i then captureAt whole i else captureAt before i := by
  rw [hbefore.captureAt_overwrite hr (hwhole.sorted.ordered_inside r)
    (hwhole.sorted.within_inside r)]
  split
  · rename_i hi
    rw [hwhole.sorted.captureAt_inside (ByteRange.contains_iff.mp hi)]
  · rfl

/-- Where nothing is covered nothing changes. -/
theorem overwrite_inside_empty (hbefore : Canonical before) (hwhole : Canonical whole) (p : Nat) :
    overwrite before ⟨p, p⟩ (inside whole ⟨p, p⟩) = before := by
  have hp : (⟨p, p⟩ : ByteRange).start ≤ (⟨p, p⟩ : ByteRange).stop := Nat.le_refl p
  refine (canonical_overwrite_inside hbefore hwhole hp).ext hbefore fun i => ?_
  rw [captureAt_overwrite_inside hbefore hwhole hp, if_neg]
  rw [ByteRange.contains_iff]
  simp only
  omega

/-- Two parts of some spans that touch, spliced one after the other, are one part. -/
theorem overwrite_inside_twice (hbefore : Canonical before) (hwhole : Canonical whole)
    (hp : start ≤ p) (hq : p ≤ q) :
    overwrite (overwrite before ⟨start, p⟩ (inside whole ⟨start, p⟩)) ⟨p, q⟩
        (inside whole ⟨p, q⟩) =
      overwrite before ⟨start, q⟩ (inside whole ⟨start, q⟩) := by
  have hfront := canonical_overwrite_inside (r := ⟨start, p⟩) hbefore hwhole hp
  have hall : start ≤ q := Nat.le_trans hp hq
  refine (canonical_overwrite_inside (r := ⟨p, q⟩) hfront hwhole hq).ext
    (canonical_overwrite_inside (r := ⟨start, q⟩) hbefore hwhole hall) fun i => ?_
  rw [captureAt_overwrite_inside (r := ⟨p, q⟩) hfront hwhole hq,
    captureAt_overwrite_inside (r := ⟨start, p⟩) hbefore hwhole hp,
    captureAt_overwrite_inside (r := ⟨start, q⟩) hbefore hwhole hall]
  simp only [ByteRange.contains_iff]
  by_cases hback : p ≤ i ∧ i < q
  · rw [if_pos hback, if_pos (by omega)]
  · rw [if_neg hback]
    split <;> split <;> first | rfl | omega

theorem inside_eq_self (hwhole : Canonical whole) (hin : Within r whole) :
    inside whole r = whole :=
  (hwhole.eq_inside hwhole hin fun _ _ => rfl).symm

theorem overwrite_nil (hwhole : Canonical whole) (hr : r.start ≤ r.stop) (hin : Within r whole) :
    overwrite [] r whole = whole := by
  refine (Canonical.nil.overwrite hr hwhole.ordered hin).ext hwhole fun i => ?_
  rw [Canonical.nil.captureAt_overwrite hr hwhole.ordered hin]
  split
  · rfl
  · rename_i hi
    rw [hin.captureAt_eq_none (by rwa [ByteRange.contains_iff] at hi), captureAt_nil]

end Spans

open Spans

/-- A range of which a beginning has been queried: what is left of it, and the spans so far. -/
structure PartialQuery where
  left : ByteRange
  spans : List Span
deriving DecidableEq, Repr

namespace CompiledQuery

variable {E : SyntaxEngine}

/-- What is left is queried, and the answer is spliced in over what it covers. -/
def resume (q : CompiledQuery E) (tree : E.Tree) (d : Document) (limits : QueryBounds)
    (part : PartialQuery) (elapsed : Nat → Duration) : PartialQuery :=
  let o := q.run tree d part.left limits elapsed
  ⟨⟨o.covered.stop, part.left.stop⟩, overwrite part.spans o.covered o.spans⟩

/-- What is left is queried again and again, with the time that each of the queries takes. -/
def resumeAll (q : CompiledQuery E) (tree : E.Tree) (d : Document) (limits : QueryBounds)
    (part : PartialQuery) (times : List (Nat → Duration)) : PartialQuery :=
  times.foldl (q.resume tree d limits) part

/-- The spans that all captures reported for a range leave in it. -/
def layOut (q : CompiledQuery E) (tree : E.Tree) (d : Document) (r : ByteRange) : List Span :=
  overlay ((E.captures q.query tree d.chars r).filterMap q.raw) r

/-- A query that is given, for each end of a range, the captures of a nested family that meet it, in
the order of their starts. -/
structure Delivers (q : CompiledQuery E) (tree : E.Tree) (d : Document) (r : ByteRange)
    (found : List QueryCapture) : Prop where
  sorted : found.Pairwise fun a b => a.range.start ≤ b.range.start
  laminar : ∀ a ∈ found, ∀ b ∈ found, a.range.Laminar b.range
  ends : ∀ p, r.start ≤ p → p < r.stop →
    E.captures q.query tree d.chars ⟨p, r.stop⟩ = found.filter (QueryCapture.meets ⟨p, r.stop⟩)

variable {q : CompiledQuery E} {tree : E.Tree} {d : Document} {r : ByteRange}
  {limits : QueryBounds} {found : List QueryCapture} {before : List Span}

theorem canonical_layOut : Canonical (q.layOut tree d r) := canonical_overlay _ _

theorem within_layOut : Within r (q.layOut tree d r) := within_overlay _ _

namespace Delivers

/-- Of an end of a range all captures that meet it say what those of the range say. -/
theorem captureAt_layOut (h : q.Delivers tree d r found) {p i : Nat} (hp : r.start ≤ p)
    (hi : p ≤ i ∧ i < r.stop) :
    captureAt (q.layOut tree d ⟨p, r.stop⟩) i =
      FoundCapture.innermost (found.filterMap q.raw) i := by
  rw [layOut, h.ends p hp (by omega), overlay_meeting,
    captureAt_overlay (laminar_filterMap_raw h.laminar) hi]

/-- A query of an end of a range says of what it covers what one of all of the range says. -/
theorem run_spans (h : q.Delivers tree d r found) {p : Nat} (hp : r.start ≤ p)
    (hstop : p ≤ r.stop) (limits : QueryBounds) (elapsed : Nat → Duration) :
    (q.run tree d ⟨p, r.stop⟩ limits elapsed).spans =
      inside (q.layOut tree d r) (q.run tree d ⟨p, r.stop⟩ limits elapsed).covered := by
  have hcovered := start_le_reach (r := ⟨p, r.stop⟩) hstop
    (q.taken tree d ⟨p, r.stop⟩ limits elapsed).2
  have hcanonical : Canonical (q.run tree d ⟨p, r.stop⟩ limits elapsed).spans :=
    canonical_overlay _ _
  refine hcanonical.eq_inside canonical_layOut (within_overlay _ _) fun i hi => ?_
  have hbounds := ByteRange.contains_iff.mp hi
  simp only [run_covered] at hbounds hcovered
  have hsorted := h.ends p hp (by omega) ▸ h.sorted.filter _
  have hrange := h.captureAt_layOut (Nat.le_refl r.start) (i := i) (by omega)
  rw [run_spans_eq hstop hsorted,
    (canonical_overlay _ _).sorted.captureAt_inside (ByteRange.contains_iff.mp hi)]
  exact (h.captureAt_layOut hp (by omega)).trans hrange.symm

end Delivers

/-! ### Queries in pieces -/

/-- A query made in pieces: it has come from the start of its range to somewhere in it, and has
spliced the spans of the range up to there into those that were there before. -/
structure Holds (before whole : List Span) (r : ByteRange) (part : PartialQuery) : Prop where
  start : r.start ≤ part.left.start
  ordered : part.left.start ≤ part.left.stop
  stop : part.left.stop = r.stop
  spans : part.spans =
    overwrite before ⟨r.start, part.left.start⟩ (inside whole ⟨r.start, part.left.start⟩)

theorem holds_start {whole : List Span} (hr : r.start ≤ r.stop) (hbefore : Canonical before)
    (hwhole : Canonical whole) : Holds before whole r ⟨r, before⟩ :=
  ⟨Nat.le_refl _, hr, rfl, (overwrite_inside_empty hbefore hwhole r.start).symm⟩

theorem Holds.resume (h : q.Delivers tree d r found) (hbefore : Canonical before)
    {part : PartialQuery} (hpart : Holds before (q.layOut tree d r) r part)
    (elapsed : Nat → Duration) :
    Holds before (q.layOut tree d r) r (q.resume tree d limits part elapsed) := by
  obtain ⟨⟨p, stop⟩, spans⟩ := part
  obtain ⟨hstart, hordered, rfl, hbeginning⟩ := hpart
  simp only at hstart hordered hbeginning
  have hreach := start_le_reach (r := ⟨p, r.stop⟩) hordered
    (q.taken tree d ⟨p, r.stop⟩ limits elapsed).2
  have hspans := h.run_spans hstart hordered limits elapsed
  rw [run_covered] at hspans
  refine ⟨Nat.le_trans hstart hreach.1, hreach.2, rfl, ?_⟩
  -- What is covered now joins what was covered before.
  rw [CompiledQuery.resume, hspans, hbeginning]
  exact overwrite_inside_twice hbefore canonical_layOut hstart hreach.1

theorem holds_resumeAll (h : q.Delivers tree d r found) (hbefore : Canonical before)
    {part : PartialQuery} (hpart : Holds before (q.layOut tree d r) r part)
    (limits : QueryBounds) (times : List (Nat → Duration)) :
    Holds before (q.layOut tree d r) r (q.resumeAll tree d limits part times) := by
  induction times generalizing part with
  | nil => exact hpart
  | cons elapsed times ih => exact ih (hpart.resume h hbefore elapsed)

/-- Stopping a query changes nothing of what it says. Wherever a query is stopped that is given
captures in the order of their starts, it covers a beginning of its range and says there what all
captures of the range say, and if it is not stopped it covers the range. Where the captures are
nested, querying what is left, again and again, leaves the spans of one query that is not stopped,
as far as the queries have come. -/
theorem stopped_queries_agree (q : CompiledQuery E) (tree : E.Tree) (d : Document) {r : ByteRange}
    (hr : r.start ≤ r.stop)
    (hsorted : (E.captures q.query tree d.chars r).Pairwise fun a b =>
      a.range.start ≤ b.range.start) (limits : QueryBounds) :
    (∀ elapsed, let o := q.run tree d r limits elapsed
      o.covered.start = r.start ∧ o.covered.start ≤ o.covered.stop ∧ o.covered.stop ≤ r.stop ∧
        o.spans = inside (q.layOut tree d r) o.covered ∧
        ((q.taken tree d r limits elapsed).2 = none →
          o.covered = r ∧ o.spans = q.layOut tree d r)) ∧
      ∀ found, q.Delivers tree d r found → ∀ before, Canonical before → ∀ times,
        let part := q.resumeAll tree d limits ⟨r, before⟩ times
        r.start ≤ part.left.start ∧ part.left.start ≤ r.stop ∧ part.left.stop = r.stop ∧
          part.spans = overwrite before ⟨r.start, part.left.start⟩
            (inside (q.layOut tree d r) ⟨r.start, part.left.start⟩) ∧
          (part.left.start = r.stop → part.spans = overwrite before r (q.layOut tree d r) ∧
            (before = [] → part.spans = q.layOut tree d r)) := by
  refine ⟨fun elapsed => ?_, fun found h before hbefore times => ?_⟩
  · obtain ⟨hordered, hstop⟩ := start_le_reach hr (q.taken tree d r limits elapsed).2
    exact ⟨rfl, hordered, hstop, run_spans_eq hr hsorted, run_unstopped⟩
  · obtain ⟨hstart, hordered, hstop, hspans⟩ :=
      holds_resumeAll h hbefore (holds_start hr hbefore canonical_layOut) limits times
    refine ⟨hstart, hstop ▸ hordered, hstop, hspans, fun hdone => ?_⟩
    have hall : (q.resumeAll tree d limits ⟨r, before⟩ times).spans =
        overwrite before r (q.layOut tree d r) := by
      rw [hspans, hdone, inside_eq_self canonical_layOut within_layOut]
    refine ⟨hall, fun hnil => ?_⟩
    rw [hall, hnil, overwrite_nil canonical_layOut hr within_layOut]

/-- The first query is stopped at the last comma of a row, and the second one covers what is left.
-/
theorem stopped_queries_agree_rows :
    let q : CompiledQuery Commas.engine := ⟨"", [some .punctuationDelimiter]⟩
    let tree := Commas.offsets 0 Commas.rows.chars
    let limits : QueryBounds := ⟨.zero, 256, 0⟩
    let atOnce : Nat → Duration := fun _ => .zero
    let r : ByteRange := ⟨0, 130⟩
    (q.run tree Commas.rows r limits atOnce).covered = ⟨0, 127⟩ ∧
      (q.run tree Commas.rows r limits atOnce).spans =
        inside (q.layOut tree Commas.rows r) ⟨0, 127⟩ ∧
      (q.resumeAll tree Commas.rows limits ⟨r, []⟩ [atOnce, atOnce]).spans =
        q.layOut tree Commas.rows r ∧
      captureAt (q.layOut tree Commas.rows r) 127 = some .punctuationDelimiter := by
  intro q tree limits atOnce r
  have hcommas := Commas.sorted_tokens (Commas.pairwise_offsets 0 Commas.rows.chars)
  have hdelivers : q.Delivers tree Commas.rows r (tree.map Commas.token) :=
    { sorted := hcommas
      laminar := Commas.laminar_tokens tree
      ends := fun _ _ _ => rfl }
  obtain ⟨hrun, hresume⟩ := stopped_queries_agree q tree Commas.rows (r := r) (by decide)
    (hcommas.filter (QueryCapture.meets r)) limits
  have hcovered : (q.run tree Commas.rows r limits atOnce).covered = ⟨0, 127⟩ := by
    decide +kernel
  have hend : (q.resumeAll tree Commas.rows limits ⟨r, []⟩ [atOnce, atOnce]).left.start =
      r.stop := by
    decide +kernel
  refine ⟨hcovered, hcovered ▸ (hrun atOnce).2.2.2.1,
    ((hresume _ hdelivers [] .nil [atOnce, atOnce]).2.2.2.2 hend).2 rfl, ?_⟩
  rw [hdelivers.captureAt_layOut (p := 0) (Nat.le_refl 0) (by decide)]
  decide +kernel

end CompiledQuery

end LiveHighlight
