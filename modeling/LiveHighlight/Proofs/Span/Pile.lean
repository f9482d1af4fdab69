import LiveHighlight.Proofs.Span.Layers

/-! What an overlay says of each byte, read off the captures alone. The captures that count are laid
on each other, outer ones first, and each is cut where the innermost of the earlier ones that are
open at its start ends. A byte has the capture of the last layer around it. Captures that are nested
or apart are never cut, so there each byte has the innermost capture around it. -/

namespace LiveHighlight

namespace FoundCapture

/-- The captures that have a byte in a range or around it, outer ones first, and of each range only
the first. -/
def ranked (captures : List FoundCapture) (clip : ByteRange) : List FoundCapture :=
  ((captures.filter (meets clip)).mergeSort before).eraseDupsBy fun a b => a.range == b.range

theorem dedup_eq_eraseDupsBy {captures : List FoundCapture}
    (h : captures.Pairwise fun a b => before a b = true) :
    dedup captures = captures.eraseDupsBy fun a b => a.range == b.range := by
  induction hlength : captures.length using Nat.strongRecOn generalizing captures with
  | _ n ih =>
    subst hlength
    cases captures with
    | nil => rfl
    | cons c cs =>
      have hcs := (List.pairwise_cons.mp h).2
      have hlt : (cs.filter fun a => !(a.range == c.range)).length < (c :: cs).length :=
        Nat.lt_succ_of_le (List.length_filter_le ..)
      rw [dedup_cons_eq h, dedup_filter hcs (fun r => !(r == c.range)),
        ih _ hlt (hcs.filter _) rfl, List.eraseDupsBy_cons]
      simp only [Bool.decide_eq_false]

theorem layers_eq_ranked (captures : List FoundCapture) (clip : ByteRange) :
    layers captures clip = ranked captures clip :=
  dedup_eq_eraseDupsBy (List.pairwise_mergeSort before_trans before_total _)

end FoundCapture

open FoundCapture

/-- A capture with the offset it is cut at. -/
structure Layer where
  found : FoundCapture
  stop : Nat
deriving DecidableEq, Repr

namespace Layer

/-- Whether a byte lies in what is left of a capture. -/
def contains (t : Layer) (i : Nat) : Bool := t.found.range.start ≤ i && i < t.stop

/-- The last of some layers around a byte. -/
def top (pile : List Layer) (i : Nat) : Option Layer := (pile.filter (·.contains i)).getLast?

/-- A pile with one more capture on it, cut where the innermost layer around its start ends. -/
def lay (pile : List Layer) (c : FoundCapture) : List Layer :=
  pile ++ [⟨c, (top pile c.range.start).elim c.range.stop fun t => min c.range.stop t.stop⟩]

/-- Captures laid on each other, in turn. -/
def pileUp (captures : List FoundCapture) : List Layer := captures.foldl lay []

theorem contains_iff {t : Layer} {i : Nat} :
    t.contains i = true ↔ t.found.range.start ≤ i ∧ i < t.stop := by
  simp [contains]

theorem top_concat (pile : List Layer) (t : Layer) (i : Nat) :
    top (pile ++ [t]) i = if t.contains i then some t else top pile i := by
  simp only [top, List.getLast?_filter, List.reverse_append, List.reverse_singleton,
    List.singleton_append, List.find?_cons]
  cases t.contains i <;> rfl

theorem top_congr {pile : List Layer} {i j : Nat}
    (h : ∀ t ∈ pile, t.contains i = t.contains j) : top pile i = top pile j := by
  rw [top, top, List.filter_congr h]

theorem contains_of_top {pile : List Layer} {i : Nat} {t : Layer} (h : top pile i = some t) :
    t ∈ pile ∧ t.found.range.start ≤ i ∧ i < t.stop := by
  have hmem := List.mem_filter.mp (List.mem_of_getLast? h)
  exact ⟨hmem.1, contains_iff.mp hmem.2⟩

/-- What holds of a capture as it is laid on a pile whose layers it holds of, holds of all. -/
theorem forall_lay {pile : List Layer} {c : FoundCapture} {P : Layer → Prop}
    (h : ∀ t ∈ pile, P t) (hnone : P ⟨c, c.range.stop⟩)
    (hsome : ∀ t ∈ pile, t.found.range.start ≤ c.range.start → c.range.start < t.stop →
      P ⟨c, min c.range.stop t.stop⟩) : ∀ t ∈ lay pile c, P t := by
  intro t ht
  rcases List.mem_append.mp ht with ht | ht
  · exact h t ht
  · rw [List.mem_singleton.mp ht]
    cases htop : top pile c.range.start with
    | none => exact hnone
    | some u =>
      obtain ⟨hu, hstart, hstop⟩ := contains_of_top htop
      exact hsome u hu hstart hstop

/-- Captures that begin past a byte make no difference to it. -/
theorem top_foldl_lay {pile : List Layer} {captures : List FoundCapture} {i : Nat}
    (h : ∀ c ∈ captures, i < c.range.start) : top (captures.foldl lay pile) i = top pile i := by
  induction captures generalizing pile with
  | nil => rfl
  | cons c cs ih =>
    have hc := h c (List.mem_cons_self ..)
    rw [List.foldl_cons, ih fun d hd => h d (List.mem_cons_of_mem c hd), lay, top_concat, if_neg]
    rw [contains_iff]
    simp only
    omega

/-! ### Nested captures -/

/-- A capture that is not cut. -/
def whole (c : FoundCapture) : Layer := ⟨c, c.range.stop⟩

/-- Laid outer ones first, captures that are nested or apart are not cut. -/
theorem foldl_lay_whole (seen rest : List FoundCapture)
    (hsorted : (seen ++ rest).Pairwise fun a b => before a b = true)
    (hlaminar : ∀ a ∈ seen ++ rest, ∀ b ∈ seen ++ rest, a.range.Laminar b.range) :
    rest.foldl lay (seen.map whole) = (seen ++ rest).map whole := by
  induction rest generalizing seen with
  | nil => rw [List.append_nil, List.foldl_nil]
  | cons c cs ih =>
    have hcut : (top (seen.map whole) c.range.start).elim c.range.stop
        (fun t => min c.range.stop t.stop) = c.range.stop := by
      cases htop : top (seen.map whole) c.range.start with
      | none => rfl
      | some t =>
        obtain ⟨ht, hstart, hstop⟩ := contains_of_top htop
        obtain ⟨a, ha, rfl⟩ := List.mem_map.mp ht
        have horder := before_iff.mp ((List.pairwise_append.mp hsorted).2.2 a ha c (by simp))
        simp only [whole] at hstart hstop
        refine Nat.min_eq_left (show c.range.stop ≤ a.range.stop from ?_)
        rcases hlaminar a (by simp [ha]) c (by simp) with h | h | h | h <;> omega
    have hassoc : seen ++ c :: cs = (seen ++ [c]) ++ cs := by simp
    have hlay : lay (seen.map whole) c = (seen ++ [c]).map whole := by
      rw [lay, hcut, List.map_append]
      rfl
    rw [List.foldl_cons, hlay, hassoc]
    exact ih (seen ++ [c]) (hassoc ▸ hsorted) (hassoc ▸ hlaminar)

theorem top_whole (captures : List FoundCapture) (i : Nat) :
    top (captures.map whole) i = ((captures.filter (·.range.contains i)).getLast?).map whole := by
  rw [top, List.filter_map, List.getLast?_map]
  rfl

end Layer

namespace Spans

namespace Layout

variable {clip : ByteRange} {l : Layout} {pile : List Layer}

/-! ### Layouts and piles -/

/-- Closing captures that end at or before an offset leaves those open there as they are. -/
theorem find?_close {limit i : Nat} (hi : limit ≤ i) (opens : List OpenCapture) :
    (l.close (some limit) opens).openCaptures.find? (i < ·.stop) =
      opens.find? (i < ·.stop) := by
  induction opens generalizing l with
  | nil => rfl
  | cons top rest ih =>
    rw [Layout.close]
    split
    · rfl
    · rename_i hlimit
      have hpast : top.stop ≤ limit := by simpa using hlimit
      rw [ih, List.find?_cons_of_neg (by simp; omega)]

theorem cutStop_advance (clip : ByteRange) (l : Layout) (c : FoundCapture) (start : Nat) :
    cutStop clip (l.advance start) c =
      (l.openCaptures.find? (start < ·.stop)).elim (min c.range.stop clip.stop) fun o =>
        min (min c.range.stop clip.stop) o.stop := by
  rw [cutStop, openCaptures_advance, ← find?_close (l := l) (Nat.le_refl start)]
  split
  · rename_i top rest htop
    have hpast := lt_of_close_eq_cons htop
    rw [htop, List.find?_cons_of_pos (by simpa using hpast)]
    rfl
  · rename_i hnone
    rw [hnone]
    rfl

/-- A layout that says what a pile of layers says: what is open ends where layers do, and every byte
has the capture of the last layer around it. -/
structure Follows (clip : ByteRange) (pile : List Layer) (l : Layout) : Prop where
  sound : l.Sound clip
  opened : ∀ i, l.reached ≤ i → i < clip.stop →
    (l.openCaptures.find? (i < ·.stop)).map (·.stop) =
      (Layer.top pile i).map fun t => min t.stop clip.stop
  said : ∀ i, clip.contains i = true →
    captureOf l i = (Layer.top pile i).map (·.found.capture)

theorem follows_start (hclip : clip.start ≤ clip.stop) : Follows clip [] ⟨[], clip.start, []⟩ where
  sound := ⟨.nil _, by simp [Within], Nat.le_refl _, hclip, by simp⟩
  opened _ _ _ := rfl
  said i hi := if_neg (Nat.not_lt.mpr (ByteRange.contains_iff.mp hi).1)

/-- Where a capture is cut as it is entered, a layer of it on the pile is cut, inside the range. -/
theorem Follows.cutStop_eq (h : Follows clip pile l) {c : FoundCapture}
    (hreached : l.reached ≤ max c.range.start clip.start)
    (hclip : max c.range.start clip.start < clip.stop)
    (hpile : ∀ t ∈ pile, t.found.range.start ≤ c.range.start ∧ clip.start < t.stop) :
    cutStop clip (l.advance (max c.range.start clip.start)) c =
      min ((Layer.top pile c.range.start).elim c.range.stop fun t => min c.range.stop t.stop)
        clip.stop := by
  -- All layers end past the start of the range, so moving a start there moves it into none.
  have hsame : Layer.top pile (max c.range.start clip.start) = Layer.top pile c.range.start := by
    refine Layer.top_congr fun t ht => ?_
    have ht := hpile t ht
    rw [Bool.eq_iff_iff, Layer.contains_iff, Layer.contains_iff]
    omega
  have hopened := h.opened _ hreached hclip
  rw [hsame] at hopened
  rw [cutStop_advance]
  cases hopen : l.openCaptures.find? (max c.range.start clip.start < ·.stop) with
  | none =>
    rw [hopen, Option.map_none, eq_comm, Option.map_eq_none_iff] at hopened
    rw [hopened]
    rfl
  | some o =>
    rw [hopen, Option.map_some, eq_comm, Option.map_eq_some_iff] at hopened
    obtain ⟨t, htop, hstop⟩ := hopened
    rw [htop]
    simp only [Option.elim_some]
    omega

/-- Entering a capture lays it on the pile. -/
theorem Follows.enter (h : Follows clip pile l) {c : FoundCapture}
    (hc : c.range.start < clip.stop) (hclip : clip.start ≤ clip.stop)
    (hreached : l.reached ≤ max c.range.start clip.start)
    (hpile : ∀ t ∈ pile, t.found.range.start ≤ c.range.start ∧ clip.start < t.stop) :
    Follows clip (Layer.lay pile c) (Layout.enter clip l c) where
  sound := h.sound.enter (Nat.le_of_lt hc) hclip
  opened i hi hstop := by
    rw [h.sound.reached_enter hreached] at hi
    have hcut := h.cutStop_eq hreached (Nat.lt_of_le_of_lt hi hstop) hpile
    have hclosed : (l.advance (max c.range.start clip.start)).openCaptures.find? (i < ·.stop) =
        l.openCaptures.find? (i < ·.stop) := by
      rw [openCaptures_advance, find?_close hi]
    have hopened := h.opened i (Nat.le_trans hreached hi) hstop
    rw [Layer.lay, Layer.top_concat, enter_eq]
    simp only [Layer.contains_iff]
    rw [← hclosed] at hopened
    generalize l.advance (max c.range.start clip.start) = l' at hcut hopened ⊢
    generalize (Layer.top pile c.range.start).elim c.range.stop
      (fun t => min c.range.stop t.stop) = stop at hcut ⊢
    by_cases hin : i < stop
    · rw [if_pos (show max c.range.start clip.start < cutStop clip l' c by omega),
        if_pos (show c.range.start ≤ i ∧ i < stop by omega),
        List.find?_cons_of_pos (by simp; omega), hcut]
      rfl
    · rw [if_neg (show ¬ (c.range.start ≤ i ∧ i < stop) by omega), ← hopened]
      split
      · rw [List.find?_cons_of_neg (by simp; omega)]
      · rfl
  said i hi := by
    have hsaid := h.said i hi
    rw [ByteRange.contains_iff] at hi
    rw [h.sound.captureOf_enter hreached, Layer.lay, Layer.top_concat, hsaid]
    simp only [Layer.contains_iff]
    by_cases hstart : max c.range.start clip.start ≤ i
    · rw [h.cutStop_eq hreached (Nat.lt_of_le_of_lt hstart hi.2) hpile]
      generalize (Layer.top pile c.range.start).elim c.range.stop
        (fun t => min c.range.stop t.stop) = stop
      by_cases hin : i < stop
      · rw [if_pos (by omega), if_pos (show c.range.start ≤ i ∧ i < stop by omega)]
        rfl
      · rw [if_neg (by omega), if_neg (by omega)]
    · rw [if_neg (by omega), if_neg (by omega)]

/-- Entering captures in order lays them on the pile, one after the other. -/
theorem Follows.foldl_enter (h : Follows clip pile l) (hclip : clip.start ≤ clip.stop)
    {captures : List FoundCapture} (hsorted : captures.Pairwise fun a b => before a b = true)
    (hmeets : ∀ c ∈ captures, meets clip c = true)
    (hreached : ∀ c ∈ captures, l.reached ≤ max c.range.start clip.start)
    (hstart : ∀ t ∈ pile, ∀ c ∈ captures, t.found.range.start ≤ c.range.start)
    (hstop : ∀ t ∈ pile, clip.start < t.stop) :
    Follows clip (captures.foldl Layer.lay pile) (captures.foldl (Layout.enter clip) l) := by
  induction captures generalizing l pile with
  | nil => exact h
  | cons c cs ih =>
    obtain ⟨hafter, hcs⟩ := List.pairwise_cons.mp hsorted
    have hc := meets_iff.mp (hmeets c (List.mem_cons_self ..))
    have hreachedc := hreached c (List.mem_cons_self ..)
    have hle : ∀ d ∈ cs, c.range.start ≤ d.range.start := fun d hd => by
      have := before_iff.mp (hafter d hd)
      omega
    refine ih (h.enter hc.2.2 hclip hreachedc fun t ht =>
        ⟨hstart t ht c (List.mem_cons_self ..), hstop t ht⟩) hcs
      (fun d hd => hmeets d (List.mem_cons_of_mem c hd)) (fun d hd => ?_) ?_ ?_
    · rw [h.sound.reached_enter hreachedc]
      have := hle d hd
      omega
    · exact Layer.forall_lay (P := fun t => ∀ d ∈ cs, t.found.range.start ≤ d.range.start)
        (fun t ht d hd => hstart t ht d (List.mem_cons_of_mem c hd)) hle fun _ _ _ _ => hle
    · refine Layer.forall_lay hstop hc.2.1 fun t ht _ _ => ?_
      have := hstop t ht
      simp only
      omega

end Layout

open Layout

/-! ### Overlays -/

/-- An overlay gives each byte of its range the capture of the last layer around it. -/
theorem captureAt_overlay_top (captures : List FoundCapture) {clip : ByteRange} {i : Nat}
    (hi : clip.contains i = true) :
    captureAt (overlay captures clip) i =
      (Layer.top (Layer.pileUp (layers captures clip)) i).map (·.found.capture) := by
  have hclip : clip.start ≤ clip.stop := by
    rw [ByteRange.contains_iff] at hi
    omega
  have hfollows := (follows_start hclip).foldl_enter hclip (pairwise_layers captures clip)
    (fun c hc => (mem_of_mem_layers hc).2) (fun c _ => Nat.le_max_right ..) (by simp) (by simp)
  rw [captureAt_overlay_eq captures hclip, hfollows.said i hi]
  rfl

/-- Overlaying captures of a nested family gives each byte the innermost capture around it. -/
theorem captureAt_overlay {captures : List FoundCapture} {clip : ByteRange}
    (hlaminar : ∀ a ∈ captures, ∀ b ∈ captures, a.range.Laminar b.range) {i : Nat}
    (hi : clip.start ≤ i ∧ i < clip.stop) :
    captureAt (overlay captures clip) i = innermost captures i := by
  have hwhole : Layer.pileUp (layers captures clip) = (layers captures clip).map Layer.whole :=
    Layer.foldl_lay_whole [] (layers captures clip) (pairwise_layers captures clip)
      fun a ha b hb => hlaminar a (mem_of_mem_layers ha).1 b (mem_of_mem_layers hb).1
  rw [captureAt_overlay_top captures (ByteRange.contains_iff.mpr hi), hwhole, Layer.top_whole,
    layers_around captures hi, innermost, Option.map_map]
  rfl

/-- What an overlay is, whatever the captures are: the list is canonical and inside the range, and
each byte of the range has the capture of the last layer around it, where the captures that count
are laid on each other, outer ones first. -/
theorem overlay_layered (captures : List FoundCapture) (clip : ByteRange) :
    Canonical (overlay captures clip) ∧ Within clip (overlay captures clip) ∧
      ∀ i, clip.contains i = true → captureAt (overlay captures clip) i =
        (Layer.top (Layer.pileUp (ranked captures clip)) i).map (·.found.capture) := by
  refine ⟨canonical_overlay captures clip, within_overlay captures clip, fun i hi => ?_⟩
  rw [captureAt_overlay_top captures hi, layers_eq_ranked]

end Spans

end LiveHighlight
