import LiveHighlight.Proofs.Span.Pile
import LiveHighlight.Proofs.Span.Tiles

/-! Overlays of a part of a range. Where captures are nested or apart, overlaying them in a window
of a range cuts the overlay of the range to the window. Whatever the captures are, the overlay up to
an offset does not depend on captures that begin at or past it. -/

namespace LiveHighlight.Spans

open FoundCapture

/-- Canonical spans inside a range that say there what other spans say are those cut to the range.
-/
theorem Canonical.eq_inside {as bs : List Span} (ha : Canonical as) (hb : Canonical bs)
    {r : ByteRange} (hin : Within r as)
    (h : ∀ i, r.contains i = true → captureAt as i = captureAt bs i) : as = Spans.inside bs r := by
  refine ha.ext (hb.inside r) fun i => ?_
  by_cases hi : r.contains i = true
  · rw [h i hi, hb.sorted.captureAt_inside (ByteRange.contains_iff.mp hi)]
  · rw [ByteRange.contains_iff] at hi
    rw [hin.captureAt_eq_none hi, (hb.sorted.within_inside r).captureAt_eq_none hi]

/-- Captures that do not meet the range may be left out. -/
theorem overlay_filter {captures : List FoundCapture} {clip : ByteRange} {p : FoundCapture → Bool}
    (hp : ∀ c ∈ captures, meets clip c = true → p c = true) :
    overlay (captures.filter p) clip = overlay captures clip := by
  have hmeets : (captures.filter p).filter (meets clip) = captures.filter (meets clip) := by
    rw [List.filter_filter]
    refine List.filter_congr fun c hc => ?_
    rw [Bool.eq_iff_iff, Bool.and_eq_true]
    exact ⟨fun h => h.1, fun h => ⟨h, hp c hc h⟩⟩
  rw [overlay, overlay, layers, layers, hmeets]

/-! ### Windows -/

/-- Overlaying captures of a nested family in a window of a range gives the overlay of the range,
cut to the window; and so it does with only the captures that meet the window. -/
theorem overlay_window {captures : List FoundCapture}
    (hlaminar : ∀ a ∈ captures, ∀ b ∈ captures, a.range.Laminar b.range) {r w : ByteRange}
    (hstart : w.start ≤ r.start) (hstop : r.stop ≤ w.stop) :
    overlay captures r = inside (overlay captures w) r ∧
      overlay (captures.filter (meets r)) r = inside (overlay captures w) r := by
  have hwindow : overlay captures r = inside (overlay captures w) r := by
    refine (canonical_overlay captures r).eq_inside (canonical_overlay captures w)
      (within_overlay captures r) fun i hi => ?_
    rw [ByteRange.contains_iff] at hi
    have hw : w.start ≤ i ∧ i < w.stop := by omega
    rw [captureAt_overlay hlaminar hi, captureAt_overlay hlaminar hw]
  exact ⟨hwindow, (overlay_filter fun _ _ => id).trans hwindow⟩

/-- A window that cuts a string with an escape in it, and leaves a word out of it. -/
theorem overlay_window_nested :
    let captures : List FoundCapture := [⟨⟨0, 10⟩, .string, 1⟩, ⟨⟨3, 5⟩, .escape, 0⟩,
      ⟨⟨12, 15⟩, .keyword, 0⟩]
    let r : ByteRange := ⟨4, 12⟩
    overlay captures r = inside (overlay captures ⟨0, 15⟩) r ∧
      overlay (captures.filter (meets r)) r = inside (overlay captures ⟨0, 15⟩) r ∧
      overlay captures r = [⟨⟨4, 5⟩, .escape⟩, ⟨⟨5, 10⟩, .string⟩] := by
  intro captures r
  have hlaminar : ∀ a ∈ captures, ∀ b ∈ captures, a.range.Laminar b.range := by
    simp [captures, ByteRange.Laminar]
  have hwindow := overlay_window hlaminar (r := r) (w := ⟨0, 15⟩) (by decide) (by decide)
  refine ⟨hwindow.1, hwindow.2, ?_⟩
  rw [overlay, layers, List.mergeSort_of_pairwise (by decide)]
  decide

/-! ### Beginnings -/

/-- The captures that count up to an offset are the first of those that count for a range. -/
theorem layers_front (front rest : List FoundCapture) {r : ByteRange} {p : Nat} (hp : p ≤ r.stop)
    (hrest : ∀ c ∈ rest, p ≤ c.range.start) :
    ∃ later, layers (front ++ rest) r = layers front ⟨r.start, p⟩ ++ later ∧
      ∀ c ∈ later, p ≤ c.range.start := by
  -- In their order, captures that begin before the offset come before those that do not.
  have hsorted : (layers (front ++ rest) r).Pairwise fun a b =>
      decide (b.range.start < p) = true → decide (a.range.start < p) = true := by
    refine (pairwise_layers (front ++ rest) r).imp fun {a b} hab => ?_
    rw [before_iff] at hab
    simp only [decide_eq_true_eq]
    omega
  have hearly : (layers (front ++ rest) r).filter (fun c => decide (c.range.start < p)) =
      layers front ⟨r.start, p⟩ := by
    have hmeets : ((front ++ rest).filter (meets r)).filter
        (fun c => decide (c.range.start < p)) = front.filter (meets ⟨r.start, p⟩) := by
      have hnone : ∀ c ∈ rest, ¬ (decide (c.range.start < p) && meets r c) = true := by
        intro c hc
        have := hrest c hc
        simp only [Bool.and_eq_true, decide_eq_true_eq]
        omega
      rw [List.filter_filter, List.filter_append, List.filter_eq_nil_iff.mpr hnone,
        List.append_nil]
      refine List.filter_congr fun c _ => ?_
      rw [Bool.eq_iff_iff, Bool.and_eq_true, decide_eq_true_eq, meets_iff, meets_iff]
      simp only
      omega
    rw [layers, dedup_filter (List.pairwise_mergeSort before_trans before_total _)
      (fun q => decide (q.start < p)), mergeSort_filter before_trans before_total, hmeets, layers]
  refine ⟨(layers (front ++ rest) r).dropWhile (fun c => decide (c.range.start < p)), ?_, ?_⟩
  · rw [← hearly, ← takeWhile_eq_filter hsorted, List.takeWhile_append_dropWhile]
  · intro c hc
    rw [dropWhile_eq_filter hsorted] at hc
    simpa using (List.mem_filter.mp hc).2

/-- Up to an offset, an overlay is that of the captures before it, whatever begins there later. -/
theorem overlay_front (front rest : List FoundCapture) {r : ByteRange} {p : Nat} (hp : p ≤ r.stop)
    (hrest : ∀ c ∈ rest, p ≤ c.range.start) :
    overlay front ⟨r.start, p⟩ = inside (overlay (front ++ rest) r) ⟨r.start, p⟩ := by
  refine (canonical_overlay _ _).eq_inside (canonical_overlay _ _) (within_overlay _ _)
    fun i hi => ?_
  obtain ⟨later, hlayers, hlater⟩ := layers_front front rest hp hrest
  have hbounds := ByteRange.contains_iff.mp hi
  simp only at hbounds
  have hr : r.contains i = true := ByteRange.contains_iff.mpr (by omega)
  have hpast : ∀ c ∈ later, i < c.range.start := fun c hc =>
    Nat.lt_of_lt_of_le hbounds.2 (hlater c hc)
  rw [captureAt_overlay_top front hi, captureAt_overlay_top (front ++ rest) hr, hlayers,
    Layer.pileUp, Layer.pileUp, List.foldl_append, Layer.top_foldl_lay hpast]

end LiveHighlight.Spans
