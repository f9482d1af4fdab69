import LiveHighlight.Proofs.Span.Canonical
import LiveHighlight.Span.Overlay

/-! Captures laid on top of each other. Whatever the captures are, the layout is canonical and stays
inside its range, and entering a capture gives its bytes to it, up to where it is cut. -/

namespace LiveHighlight

/-! ### Sorting -/

/-- Sorting puts an element before all that it does not exceed, and after the others. -/
theorem mergeSort_cons_eq {α : Type} {le : α → α → Bool}
    (trans : ∀ a b c, le a b = true → le b c = true → le a c = true)
    (total : ∀ a b, (le a b || le b a) = true) (a : α) (l : List α) :
    (a :: l).mergeSort le =
      (l.mergeSort le).filter (fun b => !le a b) ++ a :: (l.mergeSort le).filter (le a) := by
  obtain ⟨l₁, l₂, hcons, hl, hbefore⟩ := List.mergeSort_cons trans total a l
  have hsorted := List.pairwise_mergeSort trans total (a :: l)
  rw [hcons] at hsorted
  have hafter : ∀ b ∈ l₂, le a b = true :=
    (List.pairwise_cons.mp (List.pairwise_append.mp hsorted).2.1).1
  have hbefore' : ∀ b ∈ l₁, ¬ le a b = true := fun b hb => by simpa using hbefore b hb
  rw [hcons, hl, List.filter_append, List.filter_append,
    List.filter_eq_self.mpr (fun b hb => by simpa using hbefore' b hb),
    List.filter_eq_nil_iff.mpr (fun b hb => by simpa using hafter b hb), List.append_nil,
    List.filter_eq_nil_iff.mpr hbefore', List.nil_append, List.filter_eq_self.mpr hafter]

/-- Sorting keeps the order of equal elements, so that it may come before a choice or after. -/
theorem mergeSort_filter {α : Type} {le : α → α → Bool}
    (trans : ∀ a b c, le a b = true → le b c = true → le a c = true)
    (total : ∀ a b, (le a b || le b a) = true) (p : α → Bool) (l : List α) :
    (l.mergeSort le).filter p = (l.filter p).mergeSort le := by
  induction l with
  | nil => simp
  | cons a l ih =>
    by_cases hp : p a = true
    · have hcomm : ∀ q : α → Bool, ((l.mergeSort le).filter q).filter p =
          ((l.filter p).mergeSort le).filter q := by
        intro q
        rw [← ih, List.filter_filter, List.filter_filter]
        simp only [Bool.and_comm]
      rw [mergeSort_cons_eq trans total, List.filter_append, List.filter_cons, if_pos hp, hcomm,
        hcomm, List.filter_cons, if_pos hp, mergeSort_cons_eq trans total]
    · obtain ⟨l₁, l₂, hcons, hl, -⟩ := List.mergeSort_cons trans total a l
      rw [List.filter_cons, if_neg hp, ← ih, hcons, hl, List.filter_append, List.filter_append,
        List.filter_cons, if_neg hp]

/-- Two ranges are nested or have no offset in common. -/
def ByteRange.Laminar (a b : ByteRange) : Prop :=
  a.stop ≤ b.start ∨ b.stop ≤ a.start ∨ (a.start ≤ b.start ∧ b.stop ≤ a.stop) ∨
    (b.start ≤ a.start ∧ a.stop ≤ b.stop)

namespace FoundCapture

theorem before_iff {a b : FoundCapture} :
    before a b = true ↔ a.range.start < b.range.start ∨ (a.range.start = b.range.start ∧
      (b.range.stop < a.range.stop ∨ (a.range.stop = b.range.stop ∧ a.pattern ≤ b.pattern))) := by
  simp [before]

theorem before_trans (a b c : FoundCapture) (hab : before a b = true) (hbc : before b c = true) :
    before a c = true := by
  rw [before_iff] at *
  omega

theorem before_total (a b : FoundCapture) : (before a b || before b a) = true := by
  rw [Bool.or_eq_true, before_iff, before_iff]
  omega

/-! ### One capture for each range -/

theorem dedup_sublist (captures : List FoundCapture) : (dedup captures).Sublist captures := by
  induction captures with
  | nil => exact .slnil
  | cons c cs ih =>
    rw [dedup]
    split
    · rename_i next rest hcs
      rw [hcs] at ih
      split
      · exact ((List.sublist_cons_self next rest).trans ih).cons_cons c
      · exact ih.cons_cons c
    · exact (List.nil_sublist cs).cons_cons c

/-- Of sorted captures no two of one range are left. -/
theorem dedup_distinct {captures : List FoundCapture}
    (h : captures.Pairwise fun a b => before a b = true) :
    (dedup captures).Pairwise fun a b => a.range ≠ b.range := by
  induction captures with
  | nil => exact .nil
  | cons c cs ih =>
    obtain ⟨hc, hcs⟩ := List.pairwise_cons.mp h
    have ih := ih hcs
    have hmem := (dedup_sublist cs).subset
    have hsorted := hcs.sublist (dedup_sublist cs)
    rw [dedup]
    split
    · rename_i next rest hnext
      rw [hnext] at ih hmem hsorted
      obtain ⟨hother, hrest⟩ := List.pairwise_cons.mp ih
      split
      · rename_i hsame
        exact List.pairwise_cons.mpr ⟨fun x hx => hsame ▸ hother x hx, hrest⟩
      · rename_i hne
        refine List.pairwise_cons.mpr ⟨fun x hx hsame => hne ?_, ih⟩
        -- A later capture of this range would come before the one between them.
        rcases List.mem_cons.mp hx with rfl | hx
        · exact hsame.symm
        · have hcn := before_iff.mp (hc next (hmem (List.mem_cons_self ..)))
          have hnx := before_iff.mp ((List.pairwise_cons.mp hsorted).1 x hx)
          rw [← hsame] at hnx
          exact ByteRange.eq_iff.mpr (by omega)
    · exact List.pairwise_singleton _ c

/-- Of sorted captures the first stays, and it stands for all others of its range. -/
theorem dedup_cons_eq {c : FoundCapture} {cs : List FoundCapture}
    (h : (c :: cs).Pairwise fun a b => before a b = true) :
    dedup (c :: cs) = c :: (dedup cs).filter fun a => !(a.range == c.range) := by
  have hcs := dedup_distinct (List.pairwise_cons.mp h).2
  have hall := dedup_distinct h
  rw [dedup] at hall ⊢
  cases hnext : dedup cs with
  | nil => rfl
  | cons next rest =>
    simp only [hnext] at hcs hall ⊢
    by_cases hsame : next.range = c.range
    · have hrest : ∀ x ∈ rest, (!(x.range == c.range)) = true := fun x hx => by
        simpa [← hsame] using Ne.symm ((List.pairwise_cons.mp hcs).1 x hx)
      rw [if_pos hsame, List.filter_cons_of_neg (by simp [hsame]), List.filter_eq_self.mpr hrest]
    · rw [if_neg hsame] at hall ⊢
      have hkept : ∀ x ∈ next :: rest, (!(x.range == c.range)) = true := fun x hx => by
        simpa using Ne.symm ((List.pairwise_cons.mp hall).1 x hx)
      rw [List.filter_eq_self.mpr hkept]

/-- In sorted captures equal ranges are neighbours, so that a choice by range may come before
dropping repeated ranges or after. -/
theorem dedup_filter {captures : List FoundCapture}
    (h : captures.Pairwise fun a b => before a b = true) (q : ByteRange → Bool) :
    (dedup captures).filter (fun c => q c.range) =
      dedup (captures.filter fun c => q c.range) := by
  induction captures with
  | nil => rfl
  | cons c cs ih =>
    have ih := ih (List.pairwise_cons.mp h).2
    rw [dedup_cons_eq h, List.filter_cons, List.filter_cons, List.filter_filter]
    split
    · rename_i hq
      have hkept : (c :: cs.filter fun c => q c.range).Pairwise fun a b => before a b = true := by
        have hfilter := h.filter fun c => q c.range
        rwa [List.filter_cons, if_pos hq] at hfilter
      rw [dedup_cons_eq hkept, ← ih, List.filter_filter]
      simp only [Bool.and_comm]
    · rename_i hq
      rw [← ih]
      refine List.filter_congr fun x _ => ?_
      by_cases hx : x.range = c.range
      · rw [hx]
        simpa using hq
      · simp [hx]

/-- The captures around a byte, outer ones first. -/
def around (captures : List FoundCapture) (i : Nat) : List FoundCapture :=
  dedup ((captures.filter (·.range.contains i)).mergeSort before)

/-- The innermost capture around a byte. -/
def innermost (captures : List FoundCapture) (i : Nat) : Option Capture :=
  (around captures i).getLast?.map (·.capture)

theorem pairwise_layers (captures : List FoundCapture) (clip : ByteRange) :
    (layers captures clip).Pairwise fun a b => before a b = true :=
  (List.pairwise_mergeSort before_trans before_total _).sublist (dedup_sublist _)

theorem mem_of_mem_layers {captures : List FoundCapture} {clip : ByteRange} {c : FoundCapture}
    (h : c ∈ layers captures clip) : c ∈ captures ∧ meets clip c = true :=
  List.mem_filter.mp (List.mem_mergeSort.mp ((dedup_sublist _).subset h))

theorem meets_iff {clip : ByteRange} {c : FoundCapture} :
    meets clip c = true ↔ c.range.start < c.range.stop ∧ clip.start < c.range.stop ∧
      c.range.start < clip.stop := by
  simp [meets, ByteRange.isEmpty, and_assoc]

theorem layers_around (captures : List FoundCapture) {clip : ByteRange} {i : Nat}
    (hi : clip.start ≤ i ∧ i < clip.stop) :
    (layers captures clip).filter (·.range.contains i) = around captures i := by
  have hmeets : (captures.filter (meets clip)).filter (·.range.contains i) =
      captures.filter (·.range.contains i) := by
    rw [List.filter_filter]
    refine List.filter_congr fun c _ => ?_
    rw [Bool.eq_iff_iff, Bool.and_eq_true, meets_iff, ByteRange.contains_iff]
    omega
  rw [layers, dedup_filter (List.pairwise_mergeSort before_trans before_total _)
    (fun r => r.contains i), mergeSort_filter before_trans before_total, hmeets, around]

end FoundCapture

/-! ### Laying captures out -/

namespace Spans

open FoundCapture

namespace Layout

/-- What a layout says of a byte: the spans where it has come to, and from there on the open
captures. -/
def captureOf (l : Layout) (i : Nat) : Option Capture :=
  if i < l.reached then captureAt l.reversed.reverse i
  else (l.openCaptures.find? (i < ·.stop)).map (·.capture)

/-- What holds of a layout inside a range, whatever the captures are. -/
structure Sound (clip : ByteRange) (l : Layout) : Prop where
  laid : Laid l.reversed l.reached
  within : Within clip l.reversed
  start : clip.start ≤ l.reached
  stop : l.reached ≤ clip.stop
  open_stop : ∀ o ∈ l.openCaptures, o.stop ≤ clip.stop

variable {clip : ByteRange} {l : Layout}

theorem Sound.lay (h : Sound clip l) {stop : Nat} (hstop : stop ≤ clip.stop) (c : Capture) :
    Sound clip (l.lay stop c) where
  laid := h.laid.push (Nat.le_refl _) (Nat.le_max_left ..) (Nat.le_max_right ..)
  within := h.within.push ⟨h.start, hstop⟩
  start := Nat.le_trans h.start (Nat.le_max_left ..)
  stop := Nat.max_le.mpr ⟨h.stop, hstop⟩
  open_stop := h.open_stop

theorem Sound.withOpen (h : Sound clip l) {opens : List OpenCapture}
    (hopen : ∀ o ∈ opens, o.stop ≤ clip.stop) : Sound clip { l with openCaptures := opens } :=
  ⟨h.laid, h.within, h.start, h.stop, hopen⟩

theorem Sound.reach (h : Sound clip l) {p : Nat} (hp : p ≤ clip.stop) :
    Sound clip { l with reached := max l.reached p } :=
  ⟨h.laid.mono (Nat.le_max_left ..), h.within, Nat.le_trans h.start (Nat.le_max_left ..),
    Nat.max_le.mpr ⟨h.stop, hp⟩, h.open_stop⟩

theorem Sound.close (h : Sound clip l) (limit : Option Nat) {opens : List OpenCapture}
    (hopen : ∀ o ∈ opens, o.stop ≤ clip.stop) : Sound clip (l.close limit opens) := by
  induction opens generalizing l with
  | nil => exact h.withOpen (by simp)
  | cons top rest ih =>
    rw [Layout.close]
    split
    · exact h.withOpen hopen
    · exact ih (h.lay (hopen top (by simp)) _) fun o ho => hopen o (List.mem_cons_of_mem top ho)

theorem lt_of_close_eq_cons {limit : Nat} {l : Layout} {opens rest : List OpenCapture}
    {top : OpenCapture} (h : (l.close (some limit) opens).openCaptures = top :: rest) :
    limit < top.stop := by
  induction opens generalizing l with
  | nil => simp [Layout.close] at h
  | cons o os ih =>
    rw [Layout.close] at h
    split at h
    · rename_i hlimit
      simp only [List.cons.injEq] at h
      rw [← h.1]
      simpa using hlimit
    · exact ih h

theorem reached_close {limit : Nat} {l : Layout} (opens : List OpenCapture)
    (h : l.reached ≤ limit) : (l.close (some limit) opens).reached ≤ limit := by
  induction opens generalizing l with
  | nil => exact h
  | cons top rest ih =>
    rw [Layout.close]
    split
    · exact h
    · rename_i hlimit
      have : top.stop ≤ limit := by simpa using hlimit
      exact ih (Nat.max_le.mpr ⟨h, this⟩)

theorem Sound.captureAt_eq_none (h : Sound clip l) {i : Nat} (hi : l.reached ≤ i) :
    captureAt l.reversed.reverse i = none :=
  captureAt_eq_none_of_after (p := l.reached)
    (fun s hs => h.laid.below s (List.mem_reverse.mp hs)) hi

/-- Laying the innermost open capture up to an offset it reaches changes nothing of what a layout
says. -/
theorem Sound.captureOf_lay (h : Sound clip l) (top : OpenCapture) (rest : List OpenCapture)
    {stop : Nat} (hstop : stop ≤ top.stop) (opens : List OpenCapture)
    (hopens : ∀ i, stop ≤ i → l.reached ≤ i →
      opens.find? (i < ·.stop) = (top :: rest).find? (i < ·.stop)) (i : Nat) :
    captureOf { l.lay stop top.capture with openCaptures := opens } i =
      captureOf { l with openCaptures := top :: rest } i := by
  change (if i < max l.reached stop then
      captureAt (push l.reversed ⟨⟨l.reached, stop⟩, top.capture⟩).reverse i
    else (opens.find? (i < ·.stop)).map (·.capture)) =
      if i < l.reached then captureAt l.reversed.reverse i
      else ((top :: rest).find? (i < ·.stop)).map (·.capture)
  by_cases hreached : i < l.reached
  · rw [if_pos (by omega), if_pos hreached, h.laid.captureAt_push (Nat.le_refl _),
      if_neg (by simp; omega)]
  · rw [if_neg hreached]
    by_cases hi : i < stop
    · rw [if_pos (by omega), h.laid.captureAt_push (Nat.le_refl _), if_pos (by simp; omega),
        List.find?_cons_of_pos (by simp; omega)]
      rfl
    · rw [if_neg (by omega), hopens i (by omega) (by omega)]

theorem Sound.captureOf_close (h : Sound clip l) (limit : Option Nat) {opens : List OpenCapture}
    (hopen : ∀ o ∈ opens, o.stop ≤ clip.stop) (i : Nat) :
    captureOf (l.close limit opens) i = captureOf { l with openCaptures := opens } i := by
  induction opens generalizing l with
  | nil => rfl
  | cons top rest ih =>
    rw [Layout.close]
    split
    · rfl
    · rw [ih (h.lay (hopen top (by simp)) _) fun o ho => hopen o (List.mem_cons_of_mem top ho)]
      refine h.captureOf_lay top rest (Nat.le_refl _) rest (fun j hj _ => ?_) i
      rw [List.find?_cons_of_neg (by simp; omega)]

/-- The layout about to open a capture that begins at `start`. -/
def advance (l : Layout) (start : Nat) : Layout :=
  let l := l.close (some start) l.openCaptures
  match l.openCaptures with
  | top :: _ => l.lay start top.capture
  | [] => { l with reached := max l.reached start }

/-- Where a capture opened in a layout ends. -/
def cutStop (clip : ByteRange) (l : Layout) (c : FoundCapture) : Nat :=
  match l.openCaptures with
  | top :: _ => min (min c.range.stop clip.stop) top.stop
  | [] => min c.range.stop clip.stop

theorem enter_eq (clip : ByteRange) (l : Layout) (c : FoundCapture) :
    enter clip l c =
      let l := l.advance (max c.range.start clip.start)
      if max c.range.start clip.start < cutStop clip l c then
        { l with openCaptures := ⟨cutStop clip l c, c.capture⟩ :: l.openCaptures }
      else l := rfl

theorem openCaptures_advance (l : Layout) (start : Nat) :
    (l.advance start).openCaptures = (l.close (some start) l.openCaptures).openCaptures := by
  rw [advance]
  split <;> rfl

theorem Sound.advance (h : Sound clip l) (start : Nat) (hstart : start ≤ clip.stop) :
    Sound clip (l.advance start) := by
  have hclosed := h.close (some start) h.open_stop
  rw [Layout.advance]
  split
  · exact hclosed.lay hstart _
  · exact hclosed.reach hstart

/-- Advancing changes nothing of what a layout says, and reaches `start` exactly. -/
theorem Sound.captureOf_advance (h : Sound clip l) {start : Nat} (hreached : l.reached ≤ start)
    (i : Nat) :
    (l.advance start).reached = start ∧ captureOf (l.advance start) i = captureOf l i := by
  have hle := reached_close l.openCaptures hreached
  have hclosed := h.close (some start) h.open_stop
  have hsame := h.captureOf_close (some start) h.open_stop i
  rw [Layout.advance]
  split
  · rename_i top rest hopen
    refine ⟨Nat.max_eq_right hle, Eq.trans ?_ hsame⟩
    have hlay := hclosed.captureOf_lay top rest
      (Nat.le_of_lt (lt_of_close_eq_cons hopen)) _ (fun _ _ _ => rfl) i
    rw [← hopen] at hlay
    exact hlay
  · rename_i hopen
    refine ⟨Nat.max_eq_right hle, Eq.trans ?_ hsame⟩
    simp only [captureOf, hopen, List.find?_nil, Option.map_none]
    by_cases hi : i < (l.close (some start) l.openCaptures).reached
    · rw [if_pos (by omega), if_pos hi]
    · rw [if_neg hi]
      split
      · exact hclosed.captureAt_eq_none (by omega)
      · rfl

theorem Sound.enter (h : Sound clip l) {c : FoundCapture} (hc : c.range.start ≤ clip.stop)
    (hclip : clip.start ≤ clip.stop) : Sound clip (Layout.enter clip l c) := by
  have hadvance := h.advance (max c.range.start clip.start) (by omega)
  rw [enter_eq]
  simp only
  split
  · refine hadvance.withOpen fun o ho => ?_
    rcases List.mem_cons.mp ho with rfl | ho
    · simp only [cutStop]
      split <;> omega
    · exact hadvance.open_stop o ho
  · exact hadvance

/-- Entering a capture gives its bytes to it, up to where it is cut. -/
theorem Sound.captureOf_enter (h : Sound clip l) {c : FoundCapture}
    (hreached : l.reached ≤ max c.range.start clip.start) (i : Nat) :
    captureOf (Layout.enter clip l c) i =
      if max c.range.start clip.start ≤ i ∧
          i < cutStop clip (l.advance (max c.range.start clip.start)) c then
        some c.capture
      else captureOf l i := by
  obtain ⟨hstart, hsame⟩ := h.captureOf_advance hreached i
  rw [enter_eq]
  simp only
  split
  · rw [← hsame]
    simp only [captureOf, hstart]
    by_cases hi : i < max c.range.start clip.start
    · rw [if_pos hi, if_neg (by omega), if_pos hi]
    · rw [if_neg hi, if_neg hi]
      split
      · rename_i hin
        rw [List.find?_cons_of_pos (by simpa using hin.2)]
        rfl
      · rename_i hin
        rw [List.find?_cons_of_neg (by simp; omega)]
  · rw [if_neg (by omega), hsame]

theorem Sound.reached_enter (h : Sound clip l) {c : FoundCapture}
    (hreached : l.reached ≤ max c.range.start clip.start) :
    (Layout.enter clip l c).reached = max c.range.start clip.start := by
  have := (h.captureOf_advance hreached 0).1
  rw [enter_eq]
  simp only
  split <;> exact this

end Layout

/-! ### Overlays -/

open Layout

theorem sound_foldl_enter {clip : ByteRange} (hclip : clip.start ≤ clip.stop)
    {captures : List FoundCapture} (hmeets : ∀ c ∈ captures, meets clip c = true) {l : Layout}
    (h : l.Sound clip) : (captures.foldl (enter clip) l).Sound clip := by
  induction captures generalizing l with
  | nil => exact h
  | cons c cs ih =>
    have hc := meets_iff.mp (hmeets c (by simp))
    exact ih (fun d hd => hmeets d (List.mem_cons_of_mem c hd)) (h.enter (by omega) hclip)

theorem sound_start {clip : ByteRange} (hclip : clip.start ≤ clip.stop) :
    Layout.Sound clip ⟨[], clip.start, []⟩ :=
  ⟨.nil _, by simp [Within], Nat.le_refl _, hclip, by simp⟩

theorem sound_overlay (captures : List FoundCapture) {clip : ByteRange}
    (hclip : clip.start ≤ clip.stop) :
    ((layers captures clip).foldl (enter clip) ⟨[], clip.start, []⟩).Sound clip :=
  sound_foldl_enter hclip (fun _ hc => (mem_of_mem_layers hc).2) (sound_start hclip)

/-- In a range without bytes no capture is opened. -/
theorem overlay_of_isEmpty (captures : List FoundCapture) {clip : ByteRange}
    (hclip : clip.stop ≤ clip.start) : overlay captures clip = [] := by
  have hfold : ∀ (cs : List FoundCapture) (p : Nat),
      ∃ q, cs.foldl (enter clip) ⟨[], p, []⟩ = ⟨[], q, []⟩ := by
    intro cs
    induction cs with
    | nil => exact fun p => ⟨p, rfl⟩
    | cons c cs ih =>
      intro p
      have henter : enter clip ⟨[], p, []⟩ c = ⟨[], max p (max c.range.start clip.start), []⟩ :=
        if_neg (show ¬ max c.range.start clip.start < min c.range.stop clip.stop by omega)
      rw [List.foldl_cons, henter]
      exact ih _
  obtain ⟨q, hq⟩ := hfold (layers captures clip) clip.start
  rw [overlay, hq]
  rfl

theorem canonical_overlay (captures : List FoundCapture) (clip : ByteRange) :
    Canonical (overlay captures clip) := by
  rcases Nat.le_total clip.start clip.stop with hclip | hclip
  · have hsound := sound_overlay captures hclip
    exact (hsound.close none hsound.open_stop).laid.canonical
  · rw [overlay_of_isEmpty captures hclip]
    exact .nil

theorem within_overlay (captures : List FoundCapture) (clip : ByteRange) :
    Within clip (overlay captures clip) := by
  intro s hs
  rcases Nat.le_total clip.start clip.stop with hclip | hclip
  · have hsound := sound_overlay captures hclip
    exact (hsound.close none hsound.open_stop).within s (List.mem_reverse.mp hs)
  · rw [overlay_of_isEmpty captures hclip] at hs
    exact (List.not_mem_nil hs).elim

/-- Closing all captures lays out what they said. -/
theorem captureAt_overlay_eq (captures : List FoundCapture) {clip : ByteRange}
    (hclip : clip.start ≤ clip.stop) (i : Nat) :
    captureAt (overlay captures clip) i =
      captureOf ((layers captures clip).foldl (enter clip) ⟨[], clip.start, []⟩) i := by
  have hsound := sound_overlay captures hclip
  have hclosed := hsound.close none hsound.open_stop
  rw [← hsound.captureOf_close none hsound.open_stop i, overlay, captureOf]
  split
  · rfl
  · rename_i hi
    rw [hclosed.captureAt_eq_none (by omega)]
    have hnone : ∀ (l : Layout) (opens : List OpenCapture),
        (l.close none opens).openCaptures = [] := by
      intro l opens
      induction opens generalizing l with
      | nil => rfl
      | cons top rest ih =>
        rw [Layout.close]
        exact ih _
    rw [hnone]
    rfl

end Spans

end LiveHighlight
