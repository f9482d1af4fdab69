import LiveHighlight.Proofs.Span.Canonical
import LiveHighlight.Span.Change
import Mathlib.Data.List.Chain
import Mathlib.Order.Bounds.Basic

/-! Spans cut to a range, tiles without gaps, and where two lists of spans differ. What is found to
differ is the smallest range around the bytes that do, however each list is cut into spans. -/

namespace LiveHighlight.Spans

/-! ### Spans inside a range -/

theorem takeWhile_eq_filter {α : Type} {p : α → Bool} {l : List α}
    (h : l.Pairwise fun a b => p b = true → p a = true) : l.takeWhile p = l.filter p := by
  induction l with
  | nil => rfl
  | cons a l ih =>
    obtain ⟨ha, hl⟩ := List.pairwise_cons.mp h
    by_cases hp : p a = true
    · simp [hp, ih hl]
    · have hnone : ∀ b ∈ l, ¬ p b = true := fun b hb hpb => hp (ha b hb hpb)
      simp [hp, List.filter_eq_nil_iff.mpr hnone]

theorem dropWhile_eq_filter {α : Type} {p : α → Bool} {l : List α}
    (h : l.Pairwise fun a b => p b = true → p a = true) :
    l.dropWhile p = l.filter fun a => !p a := by
  induction l with
  | nil => rfl
  | cons a l ih =>
    obtain ⟨ha, hl⟩ := List.pairwise_cons.mp h
    by_cases hp : p a = true
    · simp [hp, ih hl]
    · have hall : ∀ b ∈ l, (!p b) = true := fun b hb => by
        simpa using fun hpb => hp (ha b hb hpb)
      simp [hp, List.filter_eq_self.mpr hall]

/-- Spans in the order of their bytes that overlap nowhere. Some may be empty, and spans that touch
may have one capture. -/
structure Sorted (spans : List Span) : Prop where
  forward : ∀ s ∈ spans, s.range.start ≤ s.range.stop
  ordered : Ordered spans

theorem Canonical.sorted {spans : List Span} (h : Canonical spans) : Sorted spans :=
  ⟨fun s hs => Nat.le_of_lt (h.nonempty s hs), h.ordered⟩

theorem Sorted.filter {spans : List Span} (h : Sorted spans) (p : Span → Bool) :
    Sorted (spans.filter p) where
  forward s hs := h.forward s (List.mem_filter.mp hs).1
  ordered := h.ordered.filter p

theorem Sorted.pairwise_stop {spans : List Span} (h : Sorted spans) (p : Nat) :
    spans.Pairwise fun a b =>
      decide (b.range.stop ≤ p) = true → decide (a.range.stop ≤ p) = true := by
  refine h.ordered.imp_of_mem fun {a b} _ hb hab => ?_
  have := h.forward b hb
  simp only [decide_eq_true_eq]
  omega

theorem Sorted.pairwise_start {spans : List Span} (h : Sorted spans) (p : Nat) :
    spans.Pairwise fun a b =>
      decide (b.range.start < p) = true → decide (a.range.start < p) = true := by
  refine h.ordered.imp_of_mem fun {a b} ha _ hab => ?_
  have := h.forward a ha
  simp only [decide_eq_true_eq]
  omega

theorem Sorted.inside_eq {spans : List Span} (h : Sorted spans) (r : ByteRange) :
    inside spans r =
      (((spans.filter fun s => !decide (s.range.stop ≤ r.start)).filter fun s =>
        decide (s.range.start < r.stop)).map (cut r)).filter (!·.range.isEmpty) := by
  unfold inside
  rw [dropWhile_eq_filter (h.pairwise_stop r.start),
    takeWhile_eq_filter ((h.filter _).pairwise_start r.stop)]

theorem Sorted.mem_inside {spans : List Span} (h : Sorted spans) {r : ByteRange} {t : Span} :
    t ∈ inside spans r ↔ t.range.start < t.range.stop ∧
      ∃ s ∈ spans, r.start < s.range.stop ∧ s.range.start < r.stop ∧ t = cut r s := by
  rw [h.inside_eq]
  simp only [List.mem_filter, List.mem_map, Bool.not_eq_true', decide_eq_true_eq,
    decide_eq_false_iff_not, Nat.not_le, ByteRange.isEmpty]
  constructor
  · rintro ⟨⟨s, ⟨⟨hs, hstop⟩, hstart⟩, rfl⟩, hne⟩
    exact ⟨hne, s, hs, hstop, hstart, rfl⟩
  · rintro ⟨hne, s, hs, hstop, hstart, rfl⟩
    exact ⟨⟨s, ⟨⟨hs, hstop⟩, hstart⟩, rfl⟩, hne⟩

theorem Sorted.ordered_inside {spans : List Span} (h : Sorted spans) (r : ByteRange) :
    Ordered (inside spans r) := by
  rw [h.inside_eq]
  refine List.Pairwise.filter _ (List.pairwise_map.mpr ?_)
  refine (((h.ordered.filter _).filter _).imp fun {a b} hab => ?_)
  simp only [cut]
  omega

theorem Sorted.within_inside {spans : List Span} (h : Sorted spans) (r : ByteRange) :
    Within r (inside spans r) := by
  intro t ht
  obtain ⟨-, s, -, -, -, rfl⟩ := h.mem_inside.mp ht
  simp only [cut]
  omega

theorem Sorted.captureAt_inside {spans : List Span} (h : Sorted spans) {r : ByteRange}
    {i : Nat} (hi : r.start ≤ i ∧ i < r.stop) :
    captureAt (inside spans r) i = captureAt spans i := by
  refine Option.ext fun c => ?_
  rw [(h.ordered_inside r).captureAt_eq_some, h.ordered.captureAt_eq_some]
  constructor
  · rintro ⟨t, ht, hit, rfl⟩
    obtain ⟨-, s, hs, -, -, rfl⟩ := h.mem_inside.mp ht
    simp only [cut] at hit ⊢
    exact ⟨s, hs, by omega, rfl⟩
  · rintro ⟨s, hs, his, rfl⟩
    refine ⟨cut r s, h.mem_inside.mpr ⟨?_, s, hs, by omega, by omega, rfl⟩, ?_, rfl⟩ <;>
      simp only [cut] <;> omega

/-- Cutting canonical spans to a range brings no two of one capture together that were apart. -/
theorem Canonical.inside {spans : List Span} (h : Canonical spans) (r : ByteRange) :
    Canonical (inside spans r) where
  nonempty _ ht := (h.sorted.mem_inside.mp ht).1
  ordered := h.sorted.ordered_inside r
  unmerged := by
    have hpairs : (((spans.filter fun s => !decide (s.range.stop ≤ r.start)).filter fun s =>
        decide (s.range.start < r.stop))).Pairwise fun a b => ¬ Mergeable (cut r a) (cut r b) := by
      refine (((h.ordered.and h.unmerged).filter _).filter _).imp_of_mem ?_
      rintro a b ha hb ⟨hab, hapart⟩ ⟨htouch, hsame⟩
      refine hapart ⟨?_, hsame⟩
      simp only [List.mem_filter, Bool.not_eq_true', decide_eq_false_iff_not,
        decide_eq_true_eq] at ha hb
      simp only [cut] at htouch
      omega
    rw [h.sorted.inside_eq]
    exact List.Pairwise.filter _ (List.pairwise_map.mpr hpairs)

/-! ### Tiles -/

/-- Tiles that follow on each other from `pos` to `stop`. -/
def Tiled (pos stop : Nat) : List Tile → Prop
  | [] => pos = stop
  | t :: ts => t.range.start = pos ∧ pos < t.range.stop ∧ Tiled t.range.stop stop ts

/-- Tiles give each of their bytes the capture it has in `f`. -/
def Shows (f : Nat → Option Capture) (ts : List Tile) : Prop :=
  ∀ t ∈ ts, ∀ i, t.range.start ≤ i → i < t.range.stop → t.capture = f i

theorem Tiled.le {pos stop : Nat} {ts : List Tile} (h : Tiled pos stop ts) : pos ≤ stop := by
  induction ts generalizing pos with
  | nil => exact Nat.le_of_eq h
  | cons t ts ih =>
    obtain ⟨-, hlt, h⟩ := h
    have := ih h
    omega

theorem Tiled.start_le {pos stop : Nat} {ts : List Tile} (h : Tiled pos stop ts) :
    ∀ t ∈ ts, pos ≤ t.range.start := by
  induction ts generalizing pos with
  | nil => simp
  | cons t ts ih =>
    obtain ⟨rfl, hlt, h⟩ := h
    intro u hu
    rcases List.mem_cons.mp hu with rfl | hu
    · exact Nat.le_refl _
    · have := ih h u hu
      omega

theorem tilesFrom_tiled {start stop : Nat} {spans : List Span} (hne : ∀ s ∈ spans,
    s.range.start < s.range.stop) (hordered : Ordered spans) (hwithin : Within ⟨start, stop⟩ spans)
    (h : start ≤ stop) : Tiled start stop (tilesFrom start stop spans) := by
  induction spans generalizing start with
  | nil =>
    unfold tilesFrom
    split
    · rename_i hlt
      exact ⟨rfl, hlt, rfl⟩
    · exact show start = stop by omega
  | cons s spans ih =>
    obtain ⟨hs, hordered⟩ := List.pairwise_cons.mp hordered
    have hsne := hne s (by simp)
    have hsin := hwithin s (by simp)
    simp only at hsin
    have hrest : Tiled s.range.stop stop (tilesFrom s.range.stop stop spans) :=
      ih (fun t ht => hne t (List.mem_cons_of_mem s ht)) hordered
        (fun t ht => ⟨hs t ht, (hwithin t (List.mem_cons_of_mem s ht)).2⟩) hsin.2
    simp only [tilesFrom]
    split
    · rename_i hlt
      exact ⟨rfl, hlt, rfl, hsne, hrest⟩
    · have hstart : s.range.start = start := by omega
      have hlt : start < s.range.stop := by omega
      exact ⟨hstart, hlt, hrest⟩

theorem tilesFrom_shows {start stop : Nat} {spans : List Span} (hne : ∀ s ∈ spans,
    s.range.start < s.range.stop) (hordered : Ordered spans) (hwithin : Within ⟨start, stop⟩ spans)
    (h : start ≤ stop) : Shows (captureAt spans) (tilesFrom start stop spans) := by
  induction spans generalizing start with
  | nil =>
    intro t ht i _ _
    unfold tilesFrom at ht
    split at ht
    · rw [List.mem_singleton.mp ht]
      rfl
    · cases ht
  | cons s spans ih =>
    obtain ⟨hs, hordered⟩ := List.pairwise_cons.mp hordered
    have hsne := hne s (by simp)
    have hsin := hwithin s (by simp)
    have hne' : ∀ t ∈ spans, t.range.start < t.range.stop :=
      fun t ht => hne t (List.mem_cons_of_mem s ht)
    have hwithin' : Within ⟨s.range.stop, stop⟩ spans :=
      fun t ht => ⟨hs t ht, (hwithin t (List.mem_cons_of_mem s ht)).2⟩
    have hgap : ∀ i, i < s.range.start → none = captureAt (s :: spans) i := by
      intro i hi
      refine (captureAt_eq_none_of_before (p := s.range.start) (fun t ht => ?_) hi).symm
      rcases List.mem_cons.mp ht with rfl | ht
      · exact Nat.le_refl _
      · have := hs t ht
        omega
    have hhere : ∀ i, s.range.start ≤ i → i < s.range.stop →
        some s.capture = captureAt (s :: spans) i := by
      intro i hstart hstop
      rw [captureAt_cons, if_pos (by simp; omega)]
    have hrest : Shows (captureAt (s :: spans)) (tilesFrom s.range.stop stop spans) := by
      intro t ht i hstart hstop
      have hpast := (tilesFrom_tiled hne' hordered hwithin' hsin.2).start_le t ht
      rw [ih hne' hordered hwithin' hsin.2 t ht i hstart hstop, captureAt_cons,
        if_neg (by simp; omega)]
    simp only [tilesFrom]
    split
    · intro t ht i hstart hstop
      rcases List.mem_cons.mp ht with rfl | ht
      · exact hgap i hstop
      · rcases List.mem_cons.mp ht with rfl | ht
        · exact hhere i hstart hstop
        · exact hrest t ht i hstart hstop
    · intro t ht i hstart hstop
      rcases List.mem_cons.mp ht with rfl | ht
      · exact hhere i hstart hstop
      · exact hrest t ht i hstart hstop

/-- The tiles of sorted spans follow on each other through the whole range. -/
theorem Sorted.tiles_tiled {spans : List Span} (h : Sorted spans) {r : ByteRange}
    (hr : r.start ≤ r.stop) : Tiled r.start r.stop (tiles spans r) :=
  tilesFrom_tiled (fun _ ht => (h.mem_inside.mp ht).1) (h.ordered_inside r) (h.within_inside r) hr

theorem Tiled.stop_le {pos stop : Nat} {ts : List Tile} (h : Tiled pos stop ts) :
    ∀ t ∈ ts, t.range.stop ≤ stop := by
  induction ts generalizing pos with
  | nil => simp
  | cons t ts ih =>
    obtain ⟨-, -, h⟩ := h
    intro u hu
    rcases List.mem_cons.mp hu with rfl | hu
    · exact h.le
    · exact ih h u hu

/-- The tiles of sorted spans show their captures. -/
theorem Sorted.tiles_show {spans : List Span} (h : Sorted spans) {r : ByteRange}
    (hr : r.start ≤ r.stop) : Shows (captureAt spans) (tiles spans r) := by
  intro t ht i hstart hstop
  have hpast := (h.tiles_tiled hr).start_le t ht
  have hend := (h.tiles_tiled hr).stop_le t ht
  rw [← h.captureAt_inside (r := r) (by omega)]
  exact tilesFrom_shows (fun _ ht => (h.mem_inside.mp ht).1) (h.ordered_inside r)
    (h.within_inside r) hr t ht i hstart hstop

/-- The first of some tiles fills a gap, or shows a span that begins there. -/
theorem head_tilesFrom {start stop : Nat} {spans : List Span} (hwithin : Within ⟨start, stop⟩ spans)
    {t : Tile} (ht : t ∈ (tilesFrom start stop spans).head?) :
    t.capture = none ∨ ∃ s ∈ spans, s.range.start = start ∧ t.capture = some s.capture := by
  cases spans with
  | nil =>
    unfold tilesFrom at ht
    split at ht
    · cases ht
      exact .inl rfl
    · cases ht
  | cons s rest =>
    simp only [tilesFrom] at ht
    split at ht
    · cases ht
      exact .inl rfl
    · cases ht
      have := (hwithin s (List.mem_cons_self ..)).1
      exact .inr ⟨s, List.mem_cons_self .., by simp only at this; omega, rfl⟩

theorem tilesFrom_varied {start stop : Nat} {spans : List Span} (h : Canonical spans)
    (hwithin : Within ⟨start, stop⟩ spans) :
    (tilesFrom start stop spans).IsChain fun a b => a.capture ≠ b.capture := by
  induction spans generalizing start with
  | nil =>
    unfold tilesFrom
    split
    · exact .singleton _
    · exact .nil
  | cons s rest ih =>
    have hrest : Within ⟨s.range.stop, stop⟩ rest := fun t ht =>
      ⟨h.after_head t ht, (hwithin t (List.mem_cons_of_mem s ht)).2⟩
    have hhere : (⟨s.range, some s.capture⟩ :: tilesFrom s.range.stop stop rest).IsChain
        fun a b => a.capture ≠ b.capture := by
      refine List.isChain_cons.mpr ⟨fun t ht hsame => ?_, ih h.tail hrest⟩
      rcases head_tilesFrom hrest ht with hgap | ⟨next, hnext, hstart, hcapture⟩
      · rw [hgap] at hsame
        cases hsame
      · refine (List.pairwise_cons.mp h.unmerged).1 next hnext ⟨hstart.symm, ?_⟩
        exact Option.some_inj.mp (hsame.trans hcapture)
    simp only [tilesFrom]
    split
    · exact List.isChain_cons_cons.mpr ⟨nofun, hhere⟩
    · exact hhere

/-- Neighbouring tiles of canonical spans have different captures. -/
theorem Canonical.tiles_varied {spans : List Span} (h : Canonical spans) (r : ByteRange) :
    (tiles spans r).IsChain fun a b => a.capture ≠ b.capture :=
  tilesFrom_varied (h.inside r) (h.sorted.within_inside r)

/-! ### Differences -/

/-- Tiles read up to `pos`, where the first one may have begun before. -/
def ReadTo (pos stop : Nat) : List Tile → Prop
  | [] => pos = stop
  | t :: ts => t.range.start ≤ pos ∧ pos < t.range.stop ∧ Tiled t.range.stop stop ts

theorem Tiled.readTo {pos stop : Nat} {ts : List Tile} (h : Tiled pos stop ts) :
    ReadTo pos stop ts := by
  cases ts with
  | nil => exact h
  | cons t ts => exact ⟨Nat.le_of_eq h.1, h.2.1, h.2.2⟩

theorem ReadTo.past {pos stop p : Nat} {t : Tile} {ts : List Tile} (h : ReadTo pos stop (t :: ts))
    (hp : t.range.stop = p) : ReadTo p stop ts :=
  hp ▸ h.2.2.readTo

theorem ReadTo.within {pos stop p : Nat} {t : Tile} {ts : List Tile} (h : ReadTo pos stop (t :: ts))
    (hpos : pos ≤ p) (hp : p < t.range.stop) : ReadTo p stop (t :: ts) :=
  ⟨Nat.le_trans h.1 hpos, hp, h.2.2⟩

theorem Shows.tail {f : Nat → Option Capture} {t : Tile} {ts : List Tile} (h : Shows f (t :: ts)) :
    Shows f ts :=
  fun u hu => h u (List.mem_cons_of_mem t hu)

/-- The smallest range around the bytes before `pos` at which two readings differ, from `lo` on. -/
structure Differs (f g : Nat → Option Capture) (lo pos : Nat) (changed : Option ByteRange) :
    Prop where
  placed : ∀ c, changed = some c → lo ≤ c.start ∧ c.start < c.stop ∧ c.stop ≤ pos
  around : ∀ i, lo ≤ i → i < pos → f i ≠ g i → ∃ c, changed = some c ∧ c.start ≤ i ∧ i < c.stop
  first : ∀ c, changed = some c → f c.start ≠ g c.start
  last : ∀ c, changed = some c → f (c.stop - 1) ≠ g (c.stop - 1)

/-- The hull grows by the common part of two tiles if these differ. -/
theorem Differs.step {f g : Nat → Option Capture} {lo pos stop : Nat} {changed : Option ByteRange}
    (h : Differs f g lo pos changed) (hlo : lo ≤ pos) (hlt : pos < stop) {x y : Option Capture}
    (hx : ∀ i, pos ≤ i → i < stop → x = f i) (hy : ∀ i, pos ≤ i → i < stop → y = g i) :
    Differs f g lo stop
      (if x ≠ y ∧ pos < stop then some ⟨(changed.map (·.start)).getD pos, stop⟩ else changed) := by
  split
  · rename_i hdiffer
    have hne : ∀ i, pos ≤ i → i < stop → f i ≠ g i := fun i hi hstop hsame =>
      hdiffer.1 ((hx i hi hstop).trans (hsame.trans (hy i hi hstop).symm))
    have hlast : f (stop - 1) ≠ g (stop - 1) := hne (stop - 1) (by omega) (by omega)
    cases changed with
    | none =>
      refine ⟨fun c hc => ?_, fun i hi hstop hi' => ⟨_, rfl, ?_⟩, fun c hc => ?_, fun c hc => ?_⟩
      · cases hc
        exact ⟨hlo, hlt, Nat.le_refl _⟩
      · refine ⟨Nat.le_of_not_lt fun hpos => ?_, hstop⟩
        obtain ⟨c, hc, -⟩ := h.around i hi hpos hi'
        cases hc
      · cases hc
        exact hne pos (Nat.le_refl _) hlt
      · cases hc
        exact hlast
    | some c =>
      have hc := h.placed c rfl
      refine ⟨fun c' hc' => ?_, fun i hi hstop hi' => ⟨_, rfl, ?_⟩, fun c' hc' => ?_,
        fun c' hc' => ?_⟩
      · cases hc'
        simp only [Option.map_some, Option.getD_some]
        omega
      · simp only [Option.map_some, Option.getD_some]
        by_cases hpos : i < pos
        · obtain ⟨c', hc', hstart, -⟩ := h.around i hi hpos hi'
          cases hc'
          omega
        · omega
      · cases hc'
        exact h.first c rfl
      · cases hc'
        exact hlast
  · rename_i hsame
    have hxy : x = y := Decidable.byContradiction fun hne => hsame ⟨hne, hlt⟩
    refine ⟨fun c hc => ?_, fun i hi hstop hne => ?_, h.first, h.last⟩
    · have := h.placed c hc
      omega
    · by_cases hpos : i < pos
      · exact h.around i hi hpos hne
      · exact absurd ((hx i (by omega) hstop).symm.trans (hxy.trans (hy i (by omega) hstop))) hne

/-- Reading on to the end of the shorter of two tiles. -/
theorem Differs.read {f g : Nat → Option Capture} {lo pos stop : Nat} {changed : Option ByteRange}
    (h : Differs f g lo pos changed) (hlo : lo ≤ pos) {a b : Tile} {as bs : List Tile}
    (ha : ReadTo pos stop (a :: as)) (hb : ReadTo pos stop (b :: bs)) (hf : Shows f (a :: as))
    (hg : Shows g (b :: bs)) :
    pos < min a.range.stop b.range.stop ∧
      Differs f g lo (min a.range.stop b.range.stop)
        (if a.capture ≠ b.capture ∧ pos < min a.range.stop b.range.stop then
          some ⟨(changed.map (·.start)).getD pos, min a.range.stop b.range.stop⟩
        else changed) := by
  obtain ⟨hapos, halt, -⟩ := ha
  obtain ⟨hbpos, hblt, -⟩ := hb
  have hlt : pos < min a.range.stop b.range.stop := Nat.lt_min.mpr ⟨halt, hblt⟩
  refine ⟨hlt, h.step hlo hlt (fun i hi him => ?_) fun i hi him => ?_⟩
  · exact hf a (by simp) i (by omega) (by omega)
  · exact hg b (by simp) i (by omega) (by omega)

/-- Comparing tiles of two readings gives the smallest range around the bytes at which they
differ. -/
theorem diffTiles_differs {f g : Nat → Option Capture} {lo pos stop : Nat}
    {changed : Option ByteRange} {as bs : List Tile} (ha : ReadTo pos stop as)
    (hb : ReadTo pos stop bs) (hf : Shows f as) (hg : Shows g bs) (hlo : lo ≤ pos)
    (h : Differs f g lo pos changed) : Differs f g lo stop (diffTiles pos changed as bs) := by
  induction pos, changed, as, bs using diffTiles.induct with
  | case1 pos changed bs =>
    rw [diffTiles]
    exact (show pos = stop from ha) ▸ h
  | case2 pos changed a as =>
    rw [diffTiles]
    exact (show pos = stop from hb) ▸ h
  | case3 pos changed a as b bs m changed' ham hbm ih =>
    obtain ⟨hlt, hread⟩ := h.read hlo ha hb hf hg
    rw [diffTiles, if_pos ham, if_pos hbm]
    exact ih (ha.past ham) (hb.past hbm) hf.tail hg.tail (by omega) hread
  | case4 pos changed a as b bs m changed' ham hbm ih =>
    obtain ⟨hlt, hread⟩ := h.read hlo ha hb hf hg
    rw [diffTiles, if_pos ham, if_neg hbm]
    exact ih (ha.past ham) (hb.within (by omega) (by omega)) hf.tail hg (by omega) hread
  | case5 pos changed a as b bs m changed' ham hbm ih =>
    obtain ⟨hlt, hread⟩ := h.read hlo ha hb hf hg
    rw [diffTiles, if_neg ham, if_pos hbm]
    exact ih (ha.within (by omega) (by omega)) (hb.past hbm) hf hg.tail (by omega) hread
  | case6 pos changed a as b bs m ham hbm => omega

/-- The changes of a range are the smallest range around the bytes of it whose capture differs. -/
theorem Sorted.changes_differs {old new : List Span} (hold : Sorted old) (hnew : Sorted new)
    {r : ByteRange} (hr : r.start ≤ r.stop) :
    Differs (captureAt old) (captureAt new) r.start r.stop (changes old new r) := by
  refine diffTiles_differs (hold.tiles_tiled hr).readTo (hnew.tiles_tiled hr).readTo
    (hold.tiles_show hr) (hnew.tiles_show hr) (Nat.le_refl _)
    ⟨by simp, fun i _ _ => ?_, by simp, by simp⟩
  omega

/-- The offsets from `lo` on and before `pos` at which two readings differ. -/
def unequal (f g : Nat → Option Capture) (lo pos : Nat) : Set Nat :=
  {i | (lo ≤ i ∧ i < pos) ∧ f i ≠ g i}

section Exact

variable {f g : Nat → Option Capture} {lo pos : Nat} {changed : Option ByteRange}

theorem Differs.eq_none_iff (h : Differs f g lo pos changed) :
    changed = none ↔ ∀ i, lo ≤ i → i < pos → f i = g i := by
  constructor
  · rintro rfl i hlo hpos
    by_contra hne
    obtain ⟨c, hc, -⟩ := h.around i hlo hpos hne
    cases hc
  · intro hsame
    cases changed with
    | none => rfl
    | some c =>
      have hplaced := h.placed c rfl
      exact absurd (hsame c.start (by omega) (by omega)) (h.first c rfl)

/-- The range that is found begins at the first byte that differs and ends behind the last one. -/
theorem Differs.bounds {c : ByteRange} (h : Differs f g lo pos (some c)) :
    IsLeast (unequal f g lo pos) c.start ∧ IsGreatest (unequal f g lo pos) (c.stop - 1) := by
  have hplaced := h.placed c rfl
  have haround : ∀ i ∈ unequal f g lo pos, c.start ≤ i ∧ i < c.stop := by
    rintro i ⟨⟨hlo, hpos⟩, hne⟩
    obtain ⟨c', hc', hin⟩ := h.around i hlo hpos hne
    cases hc'
    exact hin
  constructor
  · constructor
    · exact ⟨by omega, h.first c rfl⟩
    · intro i hi
      exact (haround i hi).1
  · constructor
    · exact ⟨by omega, h.last c rfl⟩
    · intro i hi
      have := (haround i hi).2
      omega

theorem Differs.eq_some_iff (h : Differs f g lo pos changed) (c : ByteRange) :
    changed = some c ↔ IsLeast (unequal f g lo pos) c.start ∧
      ∃ last, IsGreatest (unequal f g lo pos) last ∧ c.stop = last + 1 := by
  constructor
  · rintro rfl
    obtain ⟨hleast, hgreatest⟩ := h.bounds
    have hplaced := h.placed c rfl
    exact ⟨hleast, c.stop - 1, hgreatest, by omega⟩
  · rintro ⟨hleast, last, hgreatest, hstop⟩
    obtain ⟨⟨hlo, hpos⟩, hne⟩ := hleast.1
    -- Something is found, and no other range than `c` has these bounds.
    obtain ⟨c', rfl, -⟩ := h.around c.start hlo hpos hne
    obtain ⟨hleast', hgreatest'⟩ := h.bounds
    have hplaced := h.placed c' rfl
    have hstart : c'.start = c.start := hleast'.unique hleast
    have hlast : c'.stop - 1 = last := hgreatest'.unique hgreatest
    rw [ByteRange.eq_iff.mpr ⟨hstart, show c'.stop = c.stop by omega⟩]

end Exact

/-- Nothing is found in a range if and only if two lists of spans give every byte of it the same
capture. Otherwise it is the range from the first byte that differs to just past the last. -/
theorem changes_exact {old new : List Span} (hold : Sorted old) (hnew : Sorted new)
    {r : ByteRange} (hr : r.start ≤ r.stop) :
    let differing := unequal (captureAt old) (captureAt new) r.start r.stop
    (changes old new r = none ↔
      ∀ i, r.start ≤ i → i < r.stop → captureAt old i = captureAt new i) ∧
    ∀ c, changes old new r = some c ↔ IsLeast differing c.start ∧
      ∃ last, IsGreatest differing last ∧ c.stop = last + 1 := by
  intro differing
  have hdiffers := hold.changes_differs hnew hr
  constructor
  · exact hdiffers.eq_none_iff
  · intro c
    exact hdiffers.eq_some_iff c

/-- Touching spans of one capture that are cut at different places differ where their bytes do. -/
theorem changes_exact_recut :
    let old : List Span := [⟨⟨0, 4⟩, .keyword⟩, ⟨⟨4, 8⟩, .keyword⟩, ⟨⟨8, 10⟩, .string⟩]
    let new : List Span := [⟨⟨0, 6⟩, .keyword⟩, ⟨⟨6, 8⟩, .keyword⟩, ⟨⟨8, 9⟩, .string⟩]
    let differing := unequal (captureAt old) (captureAt new) 1 12
    Sorted old ∧ Sorted new ∧ changes old new ⟨1, 9⟩ = none ∧ IsLeast differing 9 ∧
      ∃ last, IsGreatest differing last ∧ 10 = last + 1 := by
  intro old new differing
  have hold : Sorted old := ⟨by decide, by unfold Ordered; decide⟩
  have hnew : Sorted new := ⟨by decide, by unfold Ordered; decide⟩
  have hsame := (changes_exact hold hnew (r := ⟨1, 9⟩) (by decide)).1
  have hfound := (changes_exact hold hnew (r := ⟨1, 12⟩) (by decide)).2 ⟨9, 10⟩
  have hshared : ∀ i < 9, captureAt old i = captureAt new i := by decide
  exact ⟨hold, hnew, hsame.mpr fun i _ hstop => hshared i hstop, hfound.mp (by decide +kernel)⟩

end LiveHighlight.Spans
