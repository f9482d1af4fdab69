import LiveHighlight.Highlight.Highlighter
import LiveHighlight.Proofs.Span.Tiles

/-! How far the update for an answer reaches. It is the smallest range around the covered bytes that
change their capture or are unpainted, and around the offset where the unpainted range touches the
covered one without having a byte of it, if it does so. -/

namespace LiveHighlight

open Spans

/-! ### Smallest ranges -/

namespace ByteRange

variable {bytes bytes' offsets offsets' : Nat → Prop} {r r' : ByteRange}

/-- The smallest range around some bytes, and around some offsets between bytes. -/
structure Hugs (bytes offsets : Nat → Prop) (r : ByteRange) : Prop where
  around : ∀ i, bytes i → r.contains i = true
  through : ∀ p, offsets p → r.start ≤ p ∧ p ≤ r.stop
  first : bytes r.start ∨ offsets r.start
  last : (∃ i, bytes i ∧ r.stop = i + 1) ∨ offsets r.stop

/-- The smallest range, which is none where there is nothing. -/
def Hugging (bytes offsets : Nat → Prop) : Option ByteRange → Prop
  | some r => r.Hugs bytes offsets
  | none => (∀ i, ¬ bytes i) ∧ ∀ p, ¬ offsets p

theorem Hugs.ordered (h : r.Hugs bytes offsets) : r.start ≤ r.stop := by
  rcases h.first with hfirst | hfirst
  · have := contains_iff.mp (h.around _ hfirst)
    omega
  · exact (h.through _ hfirst).2

/-- The hull of smallest ranges is the smallest range around all that these go around. -/
theorem Hugs.hull (h : r.Hugs bytes offsets) (h' : r'.Hugs bytes' offsets') :
    (r.hull r').Hugs (fun i => bytes i ∨ bytes' i) (fun p => offsets p ∨ offsets' p) where
  around i hi := by
    have hi : r.contains i = true ∨ r'.contains i = true :=
      hi.imp (h.around i) (h'.around i)
    simp only [contains_iff, ByteRange.hull] at hi ⊢
    omega
  through p hp := by
    have hp := hp.imp (h.through p) (h'.through p)
    simp only [ByteRange.hull]
    omega
  first := by
    simp only [ByteRange.hull]
    rcases Nat.le_total r.start r'.start with hle | hle
    · rw [Nat.min_eq_left hle]
      exact h.first.imp .inl .inl
    · rw [Nat.min_eq_right hle]
      exact h'.first.imp .inr .inr
  last := by
    simp only [ByteRange.hull]
    rcases Nat.le_total r'.stop r.stop with hle | hle
    · rw [Nat.max_eq_left hle]
      rcases h.last with ⟨i, hi, hstop⟩ | hlast
      · exact .inl ⟨i, .inl hi, hstop⟩
      · exact .inr (.inl hlast)
    · rw [Nat.max_eq_right hle]
      rcases h'.last with ⟨i, hi, hstop⟩ | hlast
      · exact .inl ⟨i, .inr hi, hstop⟩
      · exact .inr (.inr hlast)

theorem Hugging.congr {q : Option ByteRange} (h : Hugging bytes offsets q)
    (hbytes : ∀ i, bytes i ↔ bytes' i) (hoffsets : ∀ p, offsets p ↔ offsets' p) :
    Hugging bytes' offsets' q := by
  rwa [← funext fun i => propext (hbytes i), ← funext fun p => propext (hoffsets p)]

theorem Hugging.hullWith {q : Option ByteRange} (h : Hugging bytes offsets q)
    (hr : r.Hugs bytes' offsets') :
    (hullWith q r).Hugs (fun i => bytes i ∨ bytes' i) (fun p => offsets p ∨ offsets' p) := by
  cases q with
  | some q => exact Hugs.hull h hr
  | none =>
    have hr : Hugging bytes' offsets' (some r) := hr
    exact hr.congr (fun i => (or_iff_right (h.1 i)).symm) fun p => (or_iff_right (h.2 p)).symm

/-- A smallest range does without the offsets if these lie in the smallest range without them. -/
theorem hugging_without_iff {q : Option ByteRange} (h : Hugging bytes offsets q) :
    Hugging bytes (fun _ => False) q ↔ ∀ p, offsets p →
      ∃ r : ByteRange, r.Hugs bytes (fun _ => False) ∧ r.start ≤ p ∧ p ≤ r.stop := by
  cases q with
  | none => exact ⟨fun _ p hp => (h.2 p hp).elim, fun _ => ⟨h.1, fun _ => id⟩⟩
  | some r =>
    have h : r.Hugs bytes offsets := h
    refine ⟨fun hwithout p hp => ⟨r, hwithout, h.through p hp⟩, fun hinside => ?_⟩
    refine ⟨h.around, fun _ hp => hp.elim, .inl ?_, .inl ?_⟩
    · rcases h.first with hfirst | hfirst
      · exact hfirst
      · obtain ⟨r', hr', hle, -⟩ := hinside _ hfirst
        have hbyte := hr'.first.resolve_right id
        have := contains_iff.mp (h.around _ hbyte)
        rwa [show r.start = r'.start by omega]
    · rcases h.last with hlast | hlast
      · exact hlast
      · obtain ⟨r', hr', -, hle⟩ := hinside _ hlast
        obtain ⟨i, hi, hstop⟩ := hr'.last.resolve_right id
        have := contains_iff.mp (h.around _ hi)
        exact ⟨i, hi, by omega⟩

end ByteRange

/-- What differs between two readings is hugged by their changes. -/
theorem Spans.Differs.hugging {f g : Nat → Option Capture} {lo pos : Nat}
    {changed : Option ByteRange} (h : Differs f g lo pos changed) :
    ByteRange.Hugging (fun i => (⟨lo, pos⟩ : ByteRange).contains i = true ∧ f i ≠ g i)
      (fun _ => False) changed := by
  simp only [ByteRange.contains_iff]
  cases changed with
  | none =>
    refine ⟨fun i hi => ?_, fun _ => id⟩
    obtain ⟨c, hc, -⟩ := h.around i hi.1.1 hi.1.2 hi.2
    cases hc
  | some c =>
    have hplaced := h.placed c rfl
    refine ⟨fun i hi => ?_, fun _ hp => hp.elim, .inl ⟨by omega, h.first c rfl⟩,
      .inl ⟨c.stop - 1, ⟨by omega, h.last c rfl⟩, by omega⟩⟩
    obtain ⟨c', hc', hin⟩ := h.around i hi.1.1 hi.1.2 hi.2
    cases hc'
    exact ByteRange.contains_iff.mpr hin

namespace Highlighter

open ByteRange

variable {E : SyntaxEngine} {h : Highlighter E} {o : QueryAnswer}

/-- A byte that an answer covers and that is to be sent: its capture changes, or it is unpainted. -/
def Wants (h : Highlighter E) (o : QueryAnswer) (i : Nat) : Prop :=
  o.covered.contains i = true ∧
    (captureAt h.spans i ≠ captureAt o.spans i ∨ h.unpainted.any (·.contains i) = true)

/-- The offset where the unpainted range and what an answer covers meet without having a byte in
common. -/
def Touches (h : Highlighter E) (o : QueryAnswer) (p : Nat) : Prop :=
  ∃ u, h.unpainted = some u ∧ max u.start o.covered.start = p ∧ min u.stop o.covered.stop = p

theorem hugging_paintable (covered u : ByteRange) :
    Hugging (fun i => covered.contains i = true ∧ u.contains i = true)
      (fun p => max u.start covered.start = p ∧ min u.stop covered.stop = p)
      (paintable covered u) := by
  simp only [contains_iff]
  unfold paintable
  simp only
  split
  · rename_i hmeet
    -- The ranges share bytes, or no more than an offset.
    refine ⟨fun i hi => contains_iff.mpr (by simp only; omega), fun p hp => by simp only; omega,
      ?_, ?_⟩
    · rcases Nat.lt_or_eq_of_le hmeet with hbyte | hpoint
      · exact .inl (by simp only; omega)
      · exact .inr ⟨rfl, hpoint.symm⟩
    · rcases Nat.lt_or_eq_of_le hmeet with hbyte | hpoint
      · exact .inl ⟨min u.stop covered.stop - 1, by omega, by simp only; omega⟩
      · exact .inr ⟨hpoint, rfl⟩
  · exact ⟨fun i hi => by omega, fun p hp => by omega⟩

theorem hugging_forced (h : Highlighter E) (o : QueryAnswer) :
    Hugging (fun i => o.covered.contains i = true ∧ h.unpainted.any (·.contains i) = true)
      (h.Touches o) (h.unpainted.bind (paintable o.covered)) := by
  unfold Touches
  cases hunpainted : h.unpainted with
  | none => exact ⟨by simp, by simp⟩
  | some u =>
    have hpaintable := hugging_paintable o.covered u
    simpa using hpaintable

/-- The update for an answer reaches around all that is to be sent, and no further. -/
theorem hugging_repaintedBy (hc : Canonical h.spans) (hnew : Canonical o.spans)
    (hordered : o.covered.start ≤ o.covered.stop) :
    Hugging (h.Wants o) (h.Touches o) (h.repaintedBy o) := by
  have hforced := h.hugging_forced o
  have hchanges := (hc.sorted.changes_differs hnew.sorted hordered).hugging
  have hwants : ∀ i, h.Wants o i ↔
      (o.covered.contains i = true ∧ h.unpainted.any (·.contains i) = true) ∨
        (o.covered.contains i = true ∧ captureAt h.spans i ≠ captureAt o.spans i) := by
    intro i
    rw [Wants, ← and_or_left, or_comm]
  unfold repaintedBy
  simp only
  cases hall : changes h.spans o.spans o.covered with
  | none =>
    rw [hall] at hchanges
    exact hforced.congr (fun i => by rw [hwants, or_iff_left (hchanges.1 i)]) fun _ => Iff.rfl
  | some changed =>
    rw [hall] at hchanges
    have hhull : Hugging _ _ (some _) := hforced.hullWith hchanges
    exact hhull.congr (fun i => (hwants i).symm) fun _ => or_iff_left id

/-- Taking in an answer sends one update at most, which reaches so far. -/
theorem hugging_apply (hc : Canonical h.spans) (hnew : Canonical o.spans)
    (hordered : o.covered.start ≤ o.covered.stop) (r : ByteRange) :
    (h.apply r o).2.length ≤ 1 ∧
      Hugging (h.Wants o) (h.Touches o) ((h.apply r o).2.head?.map (·.range)) := by
  have hhugging := hugging_repaintedBy hc hnew hordered
  unfold apply
  cases hq : h.repaintedBy o with
  | some q =>
    rw [hq] at hhugging
    exact ⟨Nat.le_refl 1, hhugging⟩
  | none =>
    rw [hq] at hhugging
    exact ⟨Nat.zero_le 1, hhugging⟩

theorem stop_le_of_hugs {q : ByteRange} (hq : q.Hugs (h.Wants o) (h.Touches o)) :
    q.stop ≤ o.covered.stop := by
  rcases hq.last with ⟨i, ⟨hi, -⟩, hstop⟩ | ⟨u, -, -, hstop⟩
  · have := (contains_iff.mp hi).2
    omega
  · omega

end Highlighter

end LiveHighlight
