import LiveHighlight.Proofs.Span.Tiles
import LiveHighlight.Proofs.Text.Edits

/-! Spans carried across an edit keep the captures of the bytes that stay, and spans overwritten in
a range keep those of the bytes outside. Both stay canonical. -/

namespace LiveHighlight.Spans

/-! ### Carrying spans across an edit -/

theorem mem_survivors {e : TextEdit} {s t : Span} :
    t ∈ survivors e s ↔
      (s.range.start < e.start.offset ∧
        t = ⟨⟨s.range.start, min s.range.stop e.start.offset⟩, s.capture⟩) ∨
      (e.oldEnd.offset < s.range.stop ∧
        t = ⟨⟨e.shift (max s.range.start e.oldEnd.offset), e.shift s.range.stop⟩, s.capture⟩) := by
  have hpart : ∀ (p : Prop) [Decidable p] (u : Span), (t ∈ if p then [u] else []) ↔ p ∧ t = u := by
    intro p _ u
    by_cases hp : p <;> simp [hp]
  rw [survivors, List.mem_append, hpart, hpart]
  rfl

section Carry

variable {spans : List Span} {e : TextEdit} {length : Nat}

theorem mem_survivors_of_sound (he : e.Sound length) {s t : Span}
    (hs : s.range.start < s.range.stop) (hstop : s.range.stop ≤ length) :
    t ∈ survivors e s ↔
      (s.range.start < e.start.offset ∧
        t = ⟨⟨s.range.start, min s.range.stop e.start.offset⟩, s.capture⟩) ∨
      (e.oldEnd.offset < s.range.stop ∧
        t = ⟨⟨max s.range.start e.oldEnd.offset - e.oldEnd.offset + e.newEnd.offset,
          s.range.stop - e.oldEnd.offset + e.newEnd.offset⟩, s.capture⟩) := by
  have := he.inside
  rw [mem_survivors, he.shift_eq hstop, he.shift_eq (by omega)]

theorem Canonical.ordered_survivors (h : Canonical spans) (he : e.Sound length)
    (hin : Within ⟨0, length⟩ spans) : Ordered (spans.flatMap (survivors e)) := by
  have hgrows := he.grows
  have hordered := he.ordered
  refine List.pairwise_flatMap.mpr ⟨fun s hs => ?_, ?_⟩
  · rw [survivors, he.shift_eq (hin s hs).2]
    split <;> split <;>
      simp only [List.nil_append, List.append_nil, List.singleton_append, List.pairwise_cons,
        List.mem_singleton, forall_eq, List.not_mem_nil, false_implies, implies_true,
        List.Pairwise.nil, and_true]
    have hstop := (hin s hs).2
    have hne := h.nonempty s hs
    have hinside := he.inside
    simp only [TextEdit.oldRange] at hstop ⊢
    rw [he.shift_eq (by omega)]
    omega
  · refine h.ordered.imp_of_mem fun {a b} ha hb hab t ht u hu => ?_
    have hane := h.nonempty a ha
    have hbne := h.nonempty b hb
    rw [mem_survivors_of_sound he hane (hin a ha).2] at ht
    rw [mem_survivors_of_sound he hbne (hin b hb).2] at hu
    rcases ht with ⟨_, rfl⟩ | ⟨_, rfl⟩ <;> rcases hu with ⟨_, rfl⟩ | ⟨_, rfl⟩ <;>
      simp only <;> omega

theorem Canonical.carry (h : Canonical spans) (he : e.Sound length)
    (hin : Within ⟨0, length⟩ spans) : Canonical (Spans.carry spans e) :=
  Canonical.nil.append (p := 0) (by simp) (h.ordered_survivors he hin) (by simp)

theorem Canonical.within_carry (h : Canonical spans) (he : e.Sound length)
    (hin : Within ⟨0, length⟩ spans) :
    Within ⟨0, length - e.oldEnd.offset + e.newEnd.offset⟩ (Spans.carry spans e) := by
  refine Within.append (by simp [Within]) fun t ht => ?_
  obtain ⟨s, hs, ht⟩ := List.mem_flatMap.mp ht
  have hstop := (hin s hs).2
  rw [mem_survivors_of_sound he (h.nonempty s hs) hstop] at ht
  have := he.ordered
  have := he.grows
  have := he.inside
  simp only at hstop
  rcases ht with ⟨_, rfl⟩ | ⟨_, rfl⟩ <;> simp only <;> omega

/-- Carried spans give a byte the capture it had, and inserted bytes none. -/
theorem Canonical.captureAt_carry (h : Canonical spans) (he : e.Sound length)
    (hin : Within ⟨0, length⟩ spans) (i : Nat) :
    captureAt (Spans.carry spans e) i = e.splice none (captureAt spans) i := by
  have hordered := h.ordered_survivors he hin
  have hgrows := he.grows
  have hold := he.ordered
  rw [Spans.carry, merge, Canonical.nil.captureAt_append (p := 0) (by simp) hordered (by simp)]
  simp only [captureAt_nil, Option.none_or]
  cases hi : e.origin i with
  | none =>
    rw [TextEdit.splice_of_inserted hi]
    rw [TextEdit.origin_eq_none] at hi
    refine captureAt_eq_none.mpr fun t ht => ?_
    obtain ⟨s, hs, ht⟩ := List.mem_flatMap.mp ht
    rw [mem_survivors_of_sound he (h.nonempty s hs) (hin s hs).2] at ht
    rcases ht with ⟨_, rfl⟩ | ⟨_, rfl⟩ <;> simp only <;> omega
  | some j =>
    rw [TextEdit.splice_of_origin hi]
    rw [TextEdit.origin_eq_some] at hi
    refine Option.ext fun c => ?_
    rw [hordered.captureAt_eq_some, h.ordered.captureAt_eq_some]
    constructor
    · rintro ⟨t, ht, hit, rfl⟩
      obtain ⟨s, hs, ht⟩ := List.mem_flatMap.mp ht
      rw [mem_survivors_of_sound he (h.nonempty s hs) (hin s hs).2] at ht
      rcases ht with ⟨_, rfl⟩ | ⟨_, rfl⟩
      · simp only at hit
        exact ⟨s, hs, by omega, rfl⟩
      · simp only at hit
        exact ⟨s, hs, by omega, rfl⟩
    · rintro ⟨s, hs, hjs, rfl⟩
      have hsurvives := fun t => mem_survivors_of_sound (t := t) he (h.nonempty s hs) (hin s hs).2
      rcases hi with ⟨hlt, rfl⟩ | ⟨_, _, _⟩
      · exact ⟨_, List.mem_flatMap.mpr ⟨s, hs, (hsurvives _).mpr (.inl ⟨by omega, rfl⟩)⟩,
          by simp only; omega, rfl⟩
      · exact ⟨_, List.mem_flatMap.mpr ⟨s, hs, (hsurvives _).mpr (.inr ⟨by omega, rfl⟩)⟩,
          by simp only; omega, rfl⟩

end Carry

/-- Spans carried across an edit of a document are canonical and lie in the new text. A byte before
the edit keeps its capture, one after it takes its capture along, and an inserted byte has none. It
is assumed that the new text fits a machine word. -/
theorem carry_exact {d d' : Document} {r : ByteRange} {text : String} {e : TextEdit}
    {spans : List Span} (hplan : d.planEdit r text = .ok e) (hreplace : d.replace r text = .ok d')
    (hfits : d'.length < wordSize) (h : Canonical spans) (hin : Within ⟨0, d.length⟩ spans) :
    Canonical (carry spans e) ∧ Within ⟨0, d'.length⟩ (carry spans e) ∧
      (∀ i < r.start, captureAt (carry spans e) i = captureAt spans i) ∧
      (∀ i j : Nat, r.stop ≤ i → (j : Int) = i + e.delta →
        captureAt (carry spans e) j = captureAt spans i) ∧
      ∀ i, r.start ≤ i → i < r.start + Utf8.byteLength text.toList →
        captureAt (carry spans e) i = none := by
  have hedits : d.Edits e d' := ⟨r, text, hplan, hreplace⟩
  have hsound := hedits.sound hfits
  obtain ⟨-, -, -, hlength⟩ := hedits.length
  obtain ⟨-, hstart, hold, hnew⟩ := Document.planEdit_eq_ok hplan
  have hat := h.captureAt_carry hsound hin
  refine ⟨h.carry hsound hin, hlength ▸ h.within_carry hsound hin, ?_, ?_, ?_⟩
  · intro i hi
    have horigin : e.origin i = some i := TextEdit.origin_eq_some.mpr (.inl ⟨by omega, rfl⟩)
    rw [hat, TextEdit.splice_of_origin horigin]
  · intro i j hi hj
    have hgrows := hsound.grows
    have horigin : e.origin j = some i := by
      rw [TextEdit.origin_eq_some]
      simp only [TextEdit.delta, Int.ofNat_eq_natCast] at hj
      omega
    rw [hat, TextEdit.splice_of_origin horigin]
  · intro i hfrom hto
    have horigin : e.origin i = none := TextEdit.origin_eq_none.mpr ⟨by omega, by omega⟩
    rw [hat, TextEdit.splice_of_inserted horigin]

/-- An edit in the middle of a span, over the end of a row, leaves a part on each side. -/
theorem carry_exact_cut :
    let d := Document.ofString "abc\ndefgh"
    let e : TextEdit := ⟨⟨2, ⟨0, 2⟩⟩, ⟨6, ⟨1, 2⟩⟩, ⟨4, ⟨0, 4⟩⟩, "é"⟩
    let spans : List Span := [⟨⟨0, 9⟩, .comment⟩]
    d.planEdit ⟨2, 6⟩ "é" = .ok e ∧ d.replace ⟨2, 6⟩ "é" = .ok (Document.ofString "abéfgh") ∧
      Canonical (carry spans e) ∧ Within ⟨0, 7⟩ (carry spans e) ∧
      captureAt (carry spans e) 1 = some .comment ∧ captureAt (carry spans e) 3 = none ∧
      captureAt (carry spans e) 4 = some .comment := by
  intro d e spans
  have hplan : d.planEdit ⟨2, 6⟩ "é" = .ok e := rfl
  have hreplace : d.replace ⟨2, 6⟩ "é" = .ok (Document.ofString "abéfgh") := rfl
  have hspans : Canonical spans := ⟨by decide, by unfold Ordered; decide, by decide⟩
  have hin : Within ⟨0, d.length⟩ spans := by unfold Within; decide
  obtain ⟨hcanonical, hwithin, hbefore, hafter, hinserted⟩ :=
    carry_exact hplan hreplace (by decide) hspans hin
  exact ⟨hplan, hreplace, hcanonical, hwithin, hbefore 1 (by decide),
    hinserted 3 (by decide) (by decide), hafter 6 4 (by decide) (by decide)⟩

/-! ### Overwriting a range -/

section Overwrite

variable {spans replacement : List Span} {r : ByteRange}

/-- Of ordered spans that all end past the start of a range only the first can begin before it. -/
theorem mem_headBefore {met : List Span} (hordered : Ordered met)
    (hmet : ∀ s ∈ met, r.start < s.range.stop) {t : Span} :
    t ∈ headBefore r met ↔
      ∃ s ∈ met, s.range.start < r.start ∧ t = ⟨⟨s.range.start, r.start⟩, s.capture⟩ := by
  cases met with
  | nil => simp [headBefore]
  | cons m ms =>
    simp only [headBefore, List.head?_cons, List.mem_ite_nil_right, List.mem_singleton]
    constructor
    · rintro ⟨hlt, rfl⟩
      exact ⟨m, by simp, hlt, rfl⟩
    · rintro ⟨s, hs, hlt, rfl⟩
      rcases List.mem_cons.mp hs with rfl | hs
      · exact ⟨hlt, rfl⟩
      · have := (List.pairwise_cons.mp hordered).1 s hs
        have := hmet m (by simp)
        omega

/-- Of ordered spans that all begin before the end of a range only the last can end past it. -/
theorem mem_tailAfter {met : List Span} (hordered : Ordered met)
    (hmet : ∀ s ∈ met, s.range.start < r.stop) {t : Span} :
    t ∈ tailAfter r met ↔
      ∃ s ∈ met, r.stop < s.range.stop ∧ t = ⟨⟨r.stop, s.range.stop⟩, s.capture⟩ := by
  rcases List.eq_nil_or_concat met with rfl | ⟨ms, m, rfl⟩
  · simp [tailAfter]
  · simp only [tailAfter, List.concat_eq_append, List.getLast?_append, List.getLast?_singleton,
      Option.some_or, List.mem_ite_nil_right, List.mem_singleton] at hordered hmet ⊢
    constructor
    · rintro ⟨hlt, rfl⟩
      exact ⟨m, by simp, hlt, rfl⟩
    · rintro ⟨s, hs, hlt, rfl⟩
      rcases List.mem_append.mp hs with hs | hs
      · have := (List.pairwise_append.mp hordered).2.2 s hs m (by simp)
        have := hmet m (by simp)
        omega
      · rw [List.mem_singleton.mp hs] at hlt ⊢
        exact ⟨hlt, rfl⟩

theorem ordered_headBefore (met : List Span) : Ordered (headBefore r met) := by
  unfold headBefore Ordered
  split
  · split <;> simp
  · simp

theorem ordered_tailAfter (met : List Span) : Ordered (tailAfter r met) := by
  unfold tailAfter Ordered
  split
  · split <;> simp
  · simp

/-- The parts of canonical spans that `overwrite` tells apart. -/
structure Split (spans : List Span) (r : ByteRange) (before met after : List Span) : Prop where
  all : spans = before ++ met ++ after
  before_stop : ∀ s ∈ before, s.range.stop ≤ r.start
  met_start : ∀ s ∈ met, s.range.start < r.stop
  met_stop : ∀ s ∈ met, r.start < s.range.stop
  after_start : ∀ s ∈ after, r.stop ≤ s.range.start

theorem Canonical.split (h : Canonical spans) (r : ByteRange) :
    Split spans r (spans.takeWhile (·.range.stop ≤ r.start))
      ((spans.dropWhile (·.range.stop ≤ r.start)).takeWhile (·.range.start < r.stop))
      ((spans.dropWhile (·.range.stop ≤ r.start)).dropWhile (·.range.start < r.stop)) where
  all := by rw [List.append_assoc, List.takeWhile_append_dropWhile,
    List.takeWhile_append_dropWhile]
  before_stop s hs := by
    rw [takeWhile_eq_filter (h.sorted.pairwise_stop r.start)] at hs
    simpa using (List.mem_filter.mp hs).2
  met_start s hs := by
    rw [dropWhile_eq_filter (h.sorted.pairwise_stop r.start),
      takeWhile_eq_filter ((h.sorted.filter _).pairwise_start r.stop)] at hs
    simpa using (List.mem_filter.mp hs).2
  met_stop s hs := by
    rw [dropWhile_eq_filter (h.sorted.pairwise_stop r.start),
      takeWhile_eq_filter ((h.sorted.filter _).pairwise_start r.stop)] at hs
    simpa using (List.mem_filter.mp (List.mem_filter.mp hs).1).2
  after_start s hs := by
    rw [dropWhile_eq_filter (h.sorted.pairwise_stop r.start),
      dropWhile_eq_filter ((h.sorted.filter _).pairwise_start r.stop)] at hs
    simpa using (List.mem_filter.mp hs).2

variable {before met after : List Span}

theorem Split.mem_spans (h : Split spans r before met after) {t : Span} :
    t ∈ spans ↔ t ∈ before ∨ t ∈ met ∨ t ∈ after := by
  rw [h.all]
  simp

/-- What follows the kept beginning in overwritten spans. -/
def rewritten (r : ByteRange) (replacement met after : List Span) : List Span :=
  headBefore r met ++ replacement ++ tailAfter r met ++ after

theorem Split.ordered_parts (h : Split spans r before met after) (hc : Canonical spans) :
    Ordered before ∧ Ordered met ∧ Ordered after ∧
      (∀ a ∈ before, ∀ b ∈ met, a.range.stop ≤ b.range.start) ∧
      (∀ a ∈ met, ∀ b ∈ after, a.range.stop ≤ b.range.start) := by
  have hordered := hc.ordered
  rw [h.all] at hordered
  obtain ⟨hfront, hafter, hcross⟩ := List.pairwise_append.mp hordered
  obtain ⟨hbefore, hmet, hbm⟩ := List.pairwise_append.mp hfront
  exact ⟨hbefore, hmet, hafter, hbm, fun a ha b hb => hcross a (by simp [ha]) b hb⟩

theorem Split.mem_rewritten (h : Split spans r before met after) (hc : Canonical spans)
    (replacement : List Span) (t : Span) :
    t ∈ rewritten r replacement met after ↔
      (∃ s ∈ met, s.range.start < r.start ∧ t = ⟨⟨s.range.start, r.start⟩, s.capture⟩) ∨
      t ∈ replacement ∨
      (∃ s ∈ met, r.stop < s.range.stop ∧ t = ⟨⟨r.stop, s.range.stop⟩, s.capture⟩) ∨
      t ∈ after := by
  obtain ⟨-, hmet, -, -, -⟩ := h.ordered_parts hc
  simp only [rewritten, List.mem_append, mem_headBefore hmet h.met_stop,
    mem_tailAfter hmet h.met_start, or_assoc]

theorem Split.ordered_rewritten (h : Split spans r before met after) (hc : Canonical spans)
    (hr : r.start ≤ r.stop) (hordered : Ordered replacement) (hin : Within r replacement) :
    Ordered (rewritten r replacement met after) := by
  obtain ⟨-, hmet, hafter, -, hma⟩ := h.ordered_parts hc
  refine List.pairwise_append.mpr ⟨List.pairwise_append.mpr ⟨List.pairwise_append.mpr
    ⟨ordered_headBefore met, hordered, ?_⟩, ordered_tailAfter met, ?_⟩, hafter, ?_⟩
  · intro t ht u hu
    obtain ⟨s, -, -, rfl⟩ := (mem_headBefore hmet h.met_stop).mp ht
    exact (hin u hu).1
  · intro t ht u hu
    obtain ⟨s, -, -, rfl⟩ := (mem_tailAfter hmet h.met_start).mp hu
    rcases List.mem_append.mp ht with ht | ht
    · obtain ⟨s, -, -, rfl⟩ := (mem_headBefore hmet h.met_stop).mp ht
      exact hr
    · exact (hin t ht).2
  · intro t ht u hu
    have hu' := h.after_start u hu
    rcases List.mem_append.mp ht with ht | ht
    · rcases List.mem_append.mp ht with ht | ht
      · obtain ⟨s, -, -, rfl⟩ := (mem_headBefore hmet h.met_stop).mp ht
        simp only
        omega
      · have := (hin t ht).2
        omega
    · obtain ⟨s, hs, -, rfl⟩ := (mem_tailAfter hmet h.met_start).mp ht
      exact hma s hs u hu

/-- An offset between the kept beginning and what follows it. -/
theorem Split.exists_limit (h : Split spans r before met after) (hc : Canonical spans)
    (hr : r.start ≤ r.stop) (hin : Within r replacement) :
    ∃ p, (∀ s ∈ before, s.range.stop ≤ p) ∧
      ∀ s ∈ rewritten r replacement met after, p ≤ s.range.start := by
  obtain ⟨-, hmet, -, hbm, hma⟩ := h.ordered_parts hc
  refine ⟨min r.start ((met.head?.map (·.range.start)).getD r.start), fun s hs => ?_,
    fun t ht => ?_⟩
  · have hstop := h.before_stop s hs
    cases met with
    | nil => simpa using hstop
    | cons m ms =>
      have := hbm s hs m (by simp)
      simp only [List.head?_cons, Option.map_some, Option.getD_some]
      omega
  · rcases (h.mem_rewritten hc _ t).mp ht with ⟨s, hs, -, rfl⟩ | ht | ⟨s, -, -, rfl⟩ | ht
    · cases met with
      | nil => cases hs
      | cons m ms =>
        have hle : m.range.start ≤ s.range.start := by
          rcases List.mem_cons.mp hs with rfl | hs
          · exact Nat.le_refl _
          · have := (List.pairwise_cons.mp hmet).1 s hs
            have := hc.nonempty m (by rw [h.all]; simp)
            omega
        simp only [List.head?_cons, Option.map_some, Option.getD_some]
        omega
    · have := (hin t ht).1
      omega
    · simp only
      omega
    · have := h.after_start t ht
      omega

/-- Overwritten spans are a kept beginning, which is canonical, and what follows it. -/
theorem Canonical.exists_split (h : Canonical spans) (r : ByteRange) :
    ∃ before met after, Split spans r before met after ∧ Canonical before ∧
      ∀ replacement, Spans.overwrite spans r replacement =
        Spans.append before (rewritten r replacement met after) := by
  have hsplit := h.split r
  have hbefore := h
  rw [hsplit.all, List.append_assoc] at hbefore
  exact ⟨_, _, _, hsplit, hbefore.of_append_left, fun _ => rfl⟩

theorem Canonical.overwrite (h : Canonical spans) (hr : r.start ≤ r.stop)
    (hordered : Ordered replacement) (hin : Within r replacement) :
    Canonical (Spans.overwrite spans r replacement) := by
  obtain ⟨before, met, after, hsplit, hbefore, hoverwrite⟩ := h.exists_split r
  obtain ⟨p, hp, hq⟩ := hsplit.exists_limit h hr hin
  rw [hoverwrite]
  exact hbefore.append hp (hsplit.ordered_rewritten h hr hordered hin) hq

/-- Overwritten spans say what the replacement says inside the range and what the old ones say
outside. -/
theorem Canonical.captureAt_overwrite (h : Canonical spans) (hr : r.start ≤ r.stop)
    (hordered : Ordered replacement) (hin : Within r replacement) (i : Nat) :
    captureAt (Spans.overwrite spans r replacement) i =
      if r.contains i then captureAt replacement i else captureAt spans i := by
  obtain ⟨before, met, after, hsplit, hbefore, hoverwrite⟩ := h.exists_split r
  obtain ⟨p, hp, hq⟩ := hsplit.exists_limit h hr hin
  have hrewritten := hsplit.ordered_rewritten h hr hordered hin
  have hmem := hsplit.mem_rewritten h replacement
  rw [hoverwrite, hbefore.captureAt_append hp hrewritten hq, ← Spans.captureAt_append]
  have hall : Ordered (before ++ rewritten r replacement met after) :=
    List.pairwise_append.mpr ⟨hbefore.ordered, hrewritten, fun a ha b hb =>
      Nat.le_trans (hp a ha) (hq b hb)⟩
  refine Option.ext fun c => ?_
  rw [hall.captureAt_eq_some]
  simp only [List.mem_append, hmem]
  split
  · rename_i hi
    rw [ByteRange.contains_iff] at hi
    rw [hordered.captureAt_eq_some]
    constructor
    · rintro ⟨t, ht | ⟨s, -, -, rfl⟩ | ht | ⟨s, -, -, rfl⟩ | ht, hit, rfl⟩
      · have := hsplit.before_stop t ht
        omega
      · simp only at hit
        omega
      · exact ⟨t, ht, hit, rfl⟩
      · simp only at hit
        omega
      · have := hsplit.after_start t ht
        omega
    · rintro ⟨t, ht, hit, rfl⟩
      exact ⟨t, .inr (.inr (.inl ht)), hit, rfl⟩
  · rename_i hi
    rw [ByteRange.contains_iff] at hi
    rw [h.ordered.captureAt_eq_some]
    have hspans := fun t => hsplit.mem_spans (t := t)
    constructor
    · rintro ⟨t, ht | ⟨s, hs, -, rfl⟩ | ht | ⟨s, hs, -, rfl⟩ | ht, hit, rfl⟩
      · exact ⟨t, (hspans t).mpr (.inl ht), hit, rfl⟩
      · have := hsplit.met_stop s hs
        simp only at hit
        exact ⟨s, (hspans s).mpr (.inr (.inl hs)), by omega, rfl⟩
      · have := hin t ht
        omega
      · have := hsplit.met_start s hs
        simp only at hit
        exact ⟨s, (hspans s).mpr (.inr (.inl hs)), by omega, rfl⟩
      · exact ⟨t, (hspans t).mpr (.inr (.inr ht)), hit, rfl⟩
    · rintro ⟨s, hs, his, rfl⟩
      rcases (hspans s).mp hs with hs | hs | hs
      · exact ⟨s, .inl hs, his, rfl⟩
      · by_cases hlow : i < r.start
        · exact ⟨⟨⟨s.range.start, r.start⟩, s.capture⟩,
            .inr (.inl ⟨s, hs, by omega, rfl⟩), by simp only; omega, rfl⟩
        · exact ⟨⟨⟨r.stop, s.range.stop⟩, s.capture⟩,
            .inr (.inr (.inr (.inl ⟨s, hs, by omega, rfl⟩))), by simp only; omega, rfl⟩
      · exact ⟨s, .inr (.inr (.inr (.inr hs))), his, rfl⟩

theorem Within.overwrite {bounds : ByteRange} (h : Within bounds spans) (hc : Canonical spans)
    (r : ByteRange) (hin : Within bounds replacement) :
    Within bounds (Spans.overwrite spans r replacement) := by
  obtain ⟨before, met, after, hsplit, -, hoverwrite⟩ := hc.exists_split r
  rw [hoverwrite]
  have hspans := fun t => hsplit.mem_spans (t := t)
  refine Within.append (fun t ht => h t ((hspans t).mpr (.inl ht))) fun t ht => ?_
  rcases (hsplit.mem_rewritten hc _ t).mp ht with ⟨s, hs, hlt, rfl⟩ | ht | ⟨s, hs, hlt, rfl⟩ | ht
  · have := h s ((hspans s).mpr (.inr (.inl hs)))
    have := hsplit.met_stop s hs
    simp only
    omega
  · exact hin t ht
  · have := h s ((hspans s).mpr (.inr (.inl hs)))
    have := hsplit.met_start s hs
    simp only
    omega
  · exact h t ((hspans t).mpr (.inr (.inr ht)))

/-- Overwriting gives the one canonical list that says what the replacement says inside the range
and what the old spans say outside. -/
theorem overwrite_exact (h : Canonical spans) (hr : r.start ≤ r.stop)
    (hreplacement : Canonical replacement) (hin : Within r replacement) (result : List Span) :
    overwrite spans r replacement = result ↔ Canonical result ∧
      ∀ i, captureAt result i =
        if r.contains i then captureAt replacement i else captureAt spans i := by
  have hcanonical := h.overwrite hr hreplacement.ordered hin
  have hat := h.captureAt_overwrite hr hreplacement.ordered hin
  constructor
  · rintro rfl
    exact ⟨hcanonical, hat⟩
  · rintro ⟨hresult, hbytes⟩
    apply hcanonical.ext hresult
    intro i
    rw [hat, hbytes]

/-- A replacement grows together with what is left on both sides. -/
theorem overwrite_exact_seams :
    let spans : List Span := [⟨⟨0, 10⟩, .keyword⟩, ⟨⟨12, 20⟩, .keyword⟩]
    let replacement : List Span := [⟨⟨4, 6⟩, .keyword⟩, ⟨⟨8, 14⟩, .keyword⟩]
    let result : List Span := [⟨⟨0, 6⟩, .keyword⟩, ⟨⟨8, 20⟩, .keyword⟩]
    Canonical spans ∧ Canonical replacement ∧ Within ⟨4, 14⟩ replacement ∧ Canonical result ∧
      ∀ i, captureAt result i =
        if (⟨4, 14⟩ : ByteRange).contains i then captureAt replacement i
        else captureAt spans i := by
  intro spans replacement result
  have hspans : Canonical spans := ⟨by decide, by unfold Ordered; decide, by decide⟩
  have hreplacement : Canonical replacement := ⟨by decide, by unfold Ordered; decide, by decide⟩
  have hin : Within ⟨4, 14⟩ replacement := by unfold Within; decide
  have hresult : overwrite spans ⟨4, 14⟩ replacement = result := by decide
  exact ⟨hspans, hreplacement, hin,
    (overwrite_exact hspans (by decide) hreplacement hin result).mp hresult⟩

end Overwrite

end LiveHighlight.Spans
