import LiveHighlight.Span.Basic

/-! Lists of spans read byte by byte. Pushing spans one by one keeps the canonical form, and two
canonical lists that say the same of every byte are one list. -/

namespace LiveHighlight

@[simp]
theorem ByteRange.contains_iff {r : ByteRange} {i : Nat} :
    r.contains i = true ↔ r.start ≤ i ∧ i < r.stop := by
  simp [contains]

@[simp]
theorem ByteRange.isEmpty_iff {r : ByteRange} : r.isEmpty = true ↔ r.stop ≤ r.start := by
  simp [isEmpty]

theorem ByteRange.eq_iff {a b : ByteRange} : a = b ↔ a.start = b.start ∧ a.stop = b.stop := by
  cases a
  cases b
  simp

namespace Spans

/-! ### The capture of a byte -/

@[simp]
theorem captureAt_nil (i : Nat) : captureAt [] i = none := rfl

theorem captureAt_cons (s : Span) (spans : List Span) (i : Nat) :
    captureAt (s :: spans) i =
      if s.range.contains i then some s.capture else captureAt spans i := by
  by_cases h : s.range.contains i = true <;> simp [captureAt, h]

theorem captureAt_append (front back : List Span) (i : Nat) :
    captureAt (front ++ back) i = (captureAt front i).or (captureAt back i) := by
  induction front with
  | nil => simp
  | cons s front ih =>
    rw [List.cons_append, captureAt_cons, captureAt_cons, ih]
    split <;> simp

theorem captureAt_eq_none {spans : List Span} {i : Nat} :
    captureAt spans i = none ↔ ∀ s ∈ spans, ¬ (s.range.start ≤ i ∧ i < s.range.stop) := by
  simp [captureAt, List.find?_eq_none]

theorem Ordered.captureAt_eq_some {spans : List Span} (h : Ordered spans) {i : Nat} {c : Capture} :
    captureAt spans i = some c ↔
      ∃ s ∈ spans, (s.range.start ≤ i ∧ i < s.range.stop) ∧ s.capture = c := by
  induction spans with
  | nil => simp
  | cons s spans ih =>
    obtain ⟨hs, h⟩ := List.pairwise_cons.mp h
    rw [captureAt_cons]
    split
    · rename_i here
      rw [ByteRange.contains_iff] at here
      constructor
      · rintro ⟨⟩
        exact ⟨s, by simp, here, rfl⟩
      · rintro ⟨t, ht, hit, rfl⟩
        rcases List.mem_cons.mp ht with rfl | ht
        · rfl
        · have := hs t ht
          omega
    · rename_i here
      rw [ByteRange.contains_iff] at here
      rw [ih h]
      simp [here]

theorem captureAt_eq_none_of_before {spans : List Span} {p i : Nat}
    (h : ∀ s ∈ spans, p ≤ s.range.start) (hi : i < p) : captureAt spans i = none :=
  captureAt_eq_none.mpr fun s hs => by have := h s hs; omega

theorem captureAt_eq_none_of_after {spans : List Span} {p i : Nat}
    (h : ∀ s ∈ spans, s.range.stop ≤ p) (hi : p ≤ i) : captureAt spans i = none :=
  captureAt_eq_none.mpr fun s hs => by have := h s hs; omega

theorem Within.captureAt_eq_none {spans : List Span} {r : ByteRange} (h : Within r spans) {i : Nat}
    (hi : ¬ (r.start ≤ i ∧ i < r.stop)) : captureAt spans i = none :=
  Spans.captureAt_eq_none.mpr fun s hs => by have := h s hs; omega

theorem Within.mono {spans : List Span} {r r' : ByteRange} (h : Within r spans)
    (hstart : r'.start ≤ r.start) (hstop : r.stop ≤ r'.stop) : Within r' spans :=
  fun s hs => by have := h s hs; omega

/-! ### The canonical form -/

theorem Canonical.nil : Canonical [] := ⟨by simp, .nil, .nil⟩

theorem Canonical.tail {s : Span} {spans : List Span} (h : Canonical (s :: spans)) :
    Canonical spans where
  nonempty t ht := h.nonempty t (List.mem_cons_of_mem s ht)
  ordered := (List.pairwise_cons.mp h.ordered).2
  unmerged := (List.pairwise_cons.mp h.unmerged).2

theorem Canonical.after_head {s : Span} {spans : List Span} (h : Canonical (s :: spans)) :
    ∀ t ∈ spans, s.range.stop ≤ t.range.start :=
  (List.pairwise_cons.mp h.ordered).1

/-- A canonical list grows at its end by a span that is not part of its last one. -/
theorem Canonical.concat {spans : List Span} {s : Span} (h : Canonical spans)
    (hs : s.range.start < s.range.stop) (hafter : ∀ t ∈ spans, t.range.stop ≤ s.range.start)
    (hnew : ∀ t ∈ spans, ¬ Mergeable t s) : Canonical (spans ++ [s]) where
  nonempty t ht := by
    rcases List.mem_append.mp ht with ht | ht
    · exact h.nonempty t ht
    · rw [List.mem_singleton.mp ht]; exact hs
  ordered := List.pairwise_append.mpr ⟨h.ordered, List.pairwise_singleton _ s,
    fun t ht u hu => by rw [List.mem_singleton.mp hu]; exact hafter t ht⟩
  unmerged := List.pairwise_append.mpr ⟨h.unmerged, List.pairwise_singleton _ s,
    fun t ht u hu => by rw [List.mem_singleton.mp hu]; exact hnew t ht⟩

theorem Canonical.of_append_left {front back : List Span} (h : Canonical (front ++ back)) :
    Canonical front where
  nonempty t ht := h.nonempty t (List.mem_append_left back ht)
  ordered := (List.pairwise_append.mp h.ordered).1
  unmerged := (List.pairwise_append.mp h.unmerged).1

/-- Two canonical lists begin at one byte if they say the same of every byte. -/
theorem Canonical.start_le {a b : Span} {as bs : List Span} (ha : Canonical (a :: as))
    (hb : Canonical (b :: bs)) (h : ∀ i, captureAt (a :: as) i = captureAt (b :: bs) i) :
    b.range.start ≤ a.range.start := by
  apply Nat.le_of_not_lt
  intro hlt
  have hsome : captureAt (a :: as) a.range.start = some a.capture := by
    rw [captureAt_cons, if_pos (by simpa using ha.nonempty a (by simp))]
  have hnone : captureAt (b :: bs) a.range.start = none := by
    refine captureAt_eq_none_of_before (p := b.range.start) (fun t ht => ?_) hlt
    rcases List.mem_cons.mp ht with rfl | ht
    · exact Nat.le_refl _
    · have := hb.after_head t ht
      have := hb.nonempty b (by simp)
      omega
  rw [h, hnone] at hsome
  cases hsome

/-- The first spans of two such lists have one end: past the shorter one the capture would have to
go on in a span of its own. -/
theorem Canonical.stop_le {a b : Span} {as bs : List Span} (ha : Canonical (a :: as))
    (h : ∀ i, captureAt (a :: as) i = captureAt (b :: bs) i)
    (hstart : a.range.start = b.range.start) (hcapture : a.capture = b.capture) :
    b.range.stop ≤ a.range.stop := by
  apply Nat.le_of_not_lt
  intro hlt
  have hne := ha.nonempty a (by simp)
  have hsome : captureAt (b :: bs) a.range.stop = some b.capture := by
    rw [captureAt_cons, if_pos (by simp; omega)]
  rw [← h, captureAt_cons, if_neg (by simp)] at hsome
  obtain ⟨t, ht, hit, htc⟩ := (Ordered.captureAt_eq_some ha.tail.ordered).mp hsome
  have hafter := ha.after_head t ht
  refine (List.pairwise_cons.mp ha.unmerged).1 t ht ⟨by omega, by rw [hcapture, htc]⟩

/-- Canonical lists that say the same of every byte are equal. -/
theorem Canonical.ext {as bs : List Span} (ha : Canonical as) (hb : Canonical bs)
    (h : ∀ i, captureAt as i = captureAt bs i) : as = bs := by
  induction as generalizing bs with
  | nil =>
    cases bs with
    | nil => rfl
    | cons b bs =>
      have := h b.range.start
      rw [captureAt_cons, if_pos (by simpa using hb.nonempty b (by simp))] at this
      cases this
  | cons a as ih =>
    cases bs with
    | nil =>
      have := h a.range.start
      rw [captureAt_cons, if_pos (by simpa using ha.nonempty a (by simp))] at this
      cases this
    | cons b bs =>
      have hstart : a.range.start = b.range.start :=
        Nat.le_antisymm (hb.start_le ha fun i => (h i).symm) (ha.start_le hb h)
      have hane := ha.nonempty a (by simp)
      have hbne := hb.nonempty b (by simp)
      have hcapture : a.capture = b.capture := by
        have := h a.range.start
        rw [captureAt_cons, captureAt_cons, if_pos (by simpa using hane),
          if_pos (by simp; omega)] at this
        exact Option.some.inj this
      have hstop : a.range.stop = b.range.stop :=
        Nat.le_antisymm (hb.stop_le (fun i => (h i).symm) hstart.symm hcapture.symm)
          (ha.stop_le h hstart hcapture)
      have hab : a = b := by
        obtain ⟨⟨_, _⟩, _⟩ := a
        obtain ⟨⟨_, _⟩, _⟩ := b
        simp_all
      subst hab
      rw [ih ha.tail hb.tail fun i => ?_]
      by_cases hi : i < a.range.stop
      · rw [captureAt_eq_none_of_before ha.after_head hi,
          captureAt_eq_none_of_before hb.after_head hi]
      · have := h i
        rwa [captureAt_cons, captureAt_cons, if_neg (by simp; omega), if_neg (by simp; omega)]
          at this

/-! ### Pushing spans -/

/-- Reversed spans in canonical form that end at or before an offset. -/
structure Laid (reversed : List Span) (limit : Nat) : Prop where
  canonical : Canonical reversed.reverse
  below : ∀ s ∈ reversed, s.range.stop ≤ limit

theorem Laid.nil (limit : Nat) : Laid [] limit := ⟨.nil, by simp⟩

theorem Laid.mono {reversed : List Span} {p q : Nat} (h : Laid reversed p) (hpq : p ≤ q) :
    Laid reversed q :=
  ⟨h.canonical, fun s hs => Nat.le_trans (h.below s hs) hpq⟩

/-- Before the last of canonical spans nothing touches what comes after it. -/
theorem Laid.stop_lt {last : Span} {before : List Span} {p : Nat} (h : Laid (last :: before) p) :
    ∀ t ∈ before, t.range.stop ≤ last.range.start := by
  have hordered := h.canonical.ordered
  rw [List.reverse_cons] at hordered
  exact fun t ht => (List.pairwise_append.mp hordered).2.2 t (by simpa using ht) last (by simp)

theorem Laid.push {reversed : List Span} {s : Span} {p q : Nat} (h : Laid reversed p)
    (hs : p ≤ s.range.start) (hp : p ≤ q) (hq : s.range.stop ≤ q) : Laid (push reversed s) q := by
  unfold Spans.push
  split
  · exact h.mono hp
  · rename_i hne
    rw [ByteRange.isEmpty_iff] at hne
    split
    · rename_i last before
      have hlast := h.below last (by simp)
      have hlastne := h.canonical.nonempty last (by simp)
      have hbefore := h.stop_lt
      have hc := h.canonical
      rw [List.reverse_cons] at hc
      split
      · rename_i hm
        refine ⟨?_, ?_⟩
        · rw [List.reverse_cons]
          refine hc.of_append_left.concat (by simp; omega) (by simpa using hbefore) ?_
          intro t ht hm'
          refine (List.pairwise_append.mp hc.unmerged).2.2 t ht last (by simp) ⟨hm'.1, ?_⟩
          rw [hm'.2, hm.2]
        · intro t ht
          rcases List.mem_cons.mp ht with rfl | ht
          · exact hq
          · exact Nat.le_trans (h.below t (List.mem_cons_of_mem last ht)) hp
      · rename_i hm
        refine ⟨?_, ?_⟩
        · rw [List.reverse_cons]
          refine h.canonical.concat (by omega)
            (fun t ht => Nat.le_trans (h.below t (List.mem_reverse.mp ht)) hs) ?_
          intro t ht hm'
          rcases List.mem_cons.mp (List.mem_reverse.mp ht) with rfl | ht
          · exact hm hm'
          · have := hbefore t ht
            have := hm'.1
            omega
        · intro t ht
          rcases List.mem_cons.mp ht with rfl | ht
          · exact hq
          · exact Nat.le_trans (h.below t ht) hp
    · refine ⟨?_, ?_⟩
      · exact Canonical.nil.concat (by omega) (by simp) (by simp)
      · intro t ht
        rw [List.mem_singleton.mp ht]
        exact hq

theorem Laid.captureAt_push {reversed : List Span} {s : Span} {p : Nat} (h : Laid reversed p)
    (hs : p ≤ s.range.start) (i : Nat) :
    captureAt (Spans.push reversed s).reverse i =
      if s.range.contains i then some s.capture else captureAt reversed.reverse i := by
  have hnone : s.range.contains i = true → captureAt reversed.reverse i = none := by
    intro hi
    rw [ByteRange.contains_iff] at hi
    exact captureAt_eq_none_of_after (p := p) (fun t ht => h.below t (by simpa using ht)) (by omega)
  unfold Spans.push
  split
  · rename_i hne
    rw [ByteRange.isEmpty_iff] at hne
    rw [if_neg (by simp; omega)]
  · rename_i hne
    rw [ByteRange.isEmpty_iff] at hne
    split
    · rename_i last before
      split
      · rename_i hm
        obtain ⟨htouch, hcapture⟩ := hm
        have hlastne := h.canonical.nonempty last (by simp)
        have hbefore := h.stop_lt
        rw [List.reverse_cons, captureAt_append, captureAt_cons, List.reverse_cons,
          captureAt_append, captureAt_cons]
        simp only [captureAt_nil, ByteRange.contains_iff]
        by_cases hi : last.range.start ≤ i
        · rw [captureAt_eq_none_of_after (p := last.range.start)
            (fun t ht => hbefore t (by simpa using ht)) hi]
          simp only [Option.none_or, hcapture]
          split <;> split <;> first | rfl | (split <;> first | rfl | omega) | omega
        · rw [if_neg (by omega), if_neg (by omega), if_neg (by omega)]
      · rw [List.reverse_cons, captureAt_append, captureAt_cons, captureAt_nil]
        split
        · rename_i hi
          rw [hnone hi]
          rfl
        · simp
    · simp [captureAt_cons]

theorem Within.push {r : ByteRange} {reversed : List Span} {s : Span} (h : Within r reversed)
    (hs : r.start ≤ s.range.start ∧ s.range.stop ≤ r.stop) : Within r (push reversed s) := by
  unfold Spans.push
  split
  · exact h
  · split
    · rename_i last before
      have hlast := h last (by simp)
      split
      · intro t ht
        rcases List.mem_cons.mp ht with rfl | ht
        · exact ⟨hlast.1, hs.2⟩
        · exact h t (List.mem_cons_of_mem last ht)
      · intro t ht
        rcases List.mem_cons.mp ht with rfl | ht
        · exact hs
        · exact h t ht
    · intro t ht
      rw [List.mem_singleton.mp ht]
      exact hs

/-- Spans pushed one by one: the list stays canonical and says what it and the spans said. -/
theorem Laid.foldl_push {reversed back : List Span} {p : Nat} (h : Laid reversed p)
    (hback : Ordered back) (hp : ∀ s ∈ back, p ≤ s.range.start) :
    Canonical (back.foldl Spans.push reversed).reverse ∧
      ∀ i, captureAt (back.foldl Spans.push reversed).reverse i =
        (captureAt reversed.reverse i).or (captureAt back i) := by
  induction back generalizing reversed p with
  | nil => exact ⟨h.canonical, by simp⟩
  | cons s back ih =>
    obtain ⟨hs, hback⟩ := List.pairwise_cons.mp hback
    have hps := hp s (by simp)
    have hlaid : Laid (Spans.push reversed s) (max p s.range.stop) :=
      h.push hps (by omega) (by omega)
    obtain ⟨hcanonical, hat⟩ := ih hlaid hback fun t ht => by
      have := hs t ht
      have := hp t (List.mem_cons_of_mem s ht)
      omega
    refine ⟨hcanonical, fun i => ?_⟩
    rw [List.foldl_cons, hat, h.captureAt_push hps, captureAt_cons]
    split
    · rename_i hi
      rw [ByteRange.contains_iff] at hi
      rw [captureAt_eq_none_of_after (p := p)
        (show ∀ t ∈ reversed.reverse, t.range.stop ≤ p from
          fun t ht => h.below t (List.mem_reverse.mp ht)) (by omega)]
      rfl
    · rfl

/-- Appending ordered spans to canonical ones before them keeps the canonical form. -/
theorem Canonical.append {front back : List Span} {p : Nat} (h : Canonical front)
    (hp : ∀ s ∈ front, s.range.stop ≤ p) (hback : Ordered back)
    (hafter : ∀ s ∈ back, p ≤ s.range.start) : Canonical (Spans.append front back) := by
  have hlaid : Laid front.reverse p := ⟨by rwa [List.reverse_reverse], by simpa using hp⟩
  exact (hlaid.foldl_push hback hafter).1

theorem Canonical.captureAt_append {front back : List Span} {p : Nat} (h : Canonical front)
    (hp : ∀ s ∈ front, s.range.stop ≤ p) (hback : Ordered back)
    (hafter : ∀ s ∈ back, p ≤ s.range.start) (i : Nat) :
    captureAt (Spans.append front back) i = (captureAt front i).or (captureAt back i) := by
  have hlaid : Laid front.reverse p := ⟨by rwa [List.reverse_reverse], by simpa using hp⟩
  have := (hlaid.foldl_push hback hafter).2 i
  rwa [List.reverse_reverse] at this

theorem Within.append {r : ByteRange} {front back : List Span} (hfront : Within r front)
    (hback : Within r back) : Within r (Spans.append front back) := by
  have hfold : ∀ reversed, Within r reversed → Within r (back.foldl Spans.push reversed) := by
    induction back with
    | nil => exact fun _ h => h
    | cons s back ih =>
      intro reversed h
      exact ih (fun t ht => hback t (List.mem_cons_of_mem s ht)) _ (h.push (hback s (by simp)))
  intro s hs
  exact hfold front.reverse (fun t ht => hfront t (by simpa using ht)) s
    (by simpa [Spans.append] using hs)

end Spans

end LiveHighlight
