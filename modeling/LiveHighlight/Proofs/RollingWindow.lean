import LiveHighlight.Stats
import Mathlib.Algebra.Order.BigOperators.Group.List
import Mathlib.Algebra.Order.Ring.Nat
import Mathlib.Data.List.DropRight

/-! What a window of durations holds of all that were recorded. The sum is kept by adding the newest
duration and taking away the oldest, so it stays the total of the window only if at each step just
the duration that leaves is taken away. -/

namespace LiveHighlight.DurationWindow

/-- The total of some durations in nanoseconds. -/
def total (ds : List Duration) : Nat := (ds.map Duration.nanos).sum

/-- The window after a history of durations, recorded in turn. -/
def ofHistory (history : List Duration) : DurationWindow := history.foldl record {}

variable {w : DurationWindow} {ds history : List Duration}

theorem total_cons (d : Duration) (ds : List Duration) : total (d :: ds) = d.nanos + total ds :=
  List.sum_cons

theorem total_concat (ds : List Duration) (d : Duration) :
    total (ds ++ [d]) = total ds + d.nanos := by
  simp [total]

theorem total_le {bound : Nat} (h : ∀ d ∈ ds, d.nanos ≤ bound) : total ds ≤ ds.length * bound := by
  have hnanos : ∀ n ∈ ds.map Duration.nanos, n ≤ bound := List.forall_mem_map.mpr h
  have hsum := List.sum_le_card_nsmul _ _ hnanos
  rwa [List.length_map, Nat.nsmul_eq_mul] at hsum

/-! ### One record -/

theorem samples_evict (w : DurationWindow) : w.evict.samples = w.samples.tail := by
  obtain ⟨samples, sum, max⟩ := w
  cases samples <;> rfl

theorem max_evict (w : DurationWindow) : w.evict.max = w.max := by
  obtain ⟨samples, sum, max⟩ := w
  cases samples <;> rfl

/-- From a sum that is the total, the oldest duration can be taken away whole. -/
theorem sum_evict_add {old : Duration} {rest : List Duration}
    (hsum : w.sum.nanos = total w.samples) (hsamples : w.samples = old :: rest) :
    w.evict.sum.nanos + old.nanos = w.sum.nanos := by
  have hevict : w.evict.sum.nanos = w.sum.nanos - old.nanos := by
    rw [evict, hsamples]
  rw [hsamples, total_cons] at hsum
  omega

theorem sum_evict (hsum : w.sum.nanos = total w.samples) :
    w.evict.sum.nanos = total w.evict.samples := by
  cases hsamples : w.samples with
  | nil =>
    have hevict : w.evict = w := by rw [evict, hsamples]
    rw [hevict, hsum]
  | cons old rest =>
    have hadd := sum_evict_add hsum hsamples
    rw [hsamples, total_cons] at hsum
    rw [samples_evict, hsamples, List.tail_cons]
    omega

theorem samples_record (w : DurationWindow) (d : Duration) :
    (w.record d).samples =
      (if windowSize ≤ w.samples.length then w.samples.tail else w.samples) ++ [d] := by
  rw [record, ← samples_evict, ← apply_ite samples]

theorem max_record (w : DurationWindow) (d : Duration) :
    (w.record d).max = ⟨Nat.max w.max.nanos d.nanos⟩ := by
  rw [record, apply_ite DurationWindow.max, max_evict, ite_self]

theorem sum_record (hsum : w.sum.nanos = total w.samples) (d : Duration) :
    (w.record d).sum.nanos = total (w.record d).samples := by
  rw [record, total_concat]
  split
  · rw [sum_evict hsum]
  · rw [hsum]

/-! ### A whole history -/

/-- A window holds the latest durations of a history with their total, and the greatest duration
of them all. -/
structure Tracks (w : DurationWindow) (history : List Duration) : Prop where
  samples : w.samples = history.rtake windowSize
  sum : w.sum.nanos = total w.samples
  le_max : ∀ d ∈ history, d.nanos ≤ w.max.nanos
  max_mem : w.max ∈ history ∨ history = [] ∧ w.max = .zero

/-- One more element at the end of a list is one more of its latest, and the oldest of these makes
room if they are as many as are kept. -/
theorem rtake_concat {α : Type} (l : List α) (x : α) {n : Nat} (hn : 0 < n) :
    (l ++ [x]).rtake n =
      (if n ≤ (l.rtake n).length then (l.rtake n).tail else l.rtake n) ++ [x] := by
  obtain ⟨k, rfl⟩ : ∃ k, n = k + 1 := ⟨n - 1, by omega⟩
  rw [List.rtake_concat_succ]
  congr 1
  rw [List.rtake, List.rtake, List.length_drop, List.tail_drop]
  split
  · congr 1
    omega
  · congr 1
    omega

theorem Tracks.record (h : Tracks w history) (d : Duration) :
    Tracks (w.record d) (history ++ [d]) where
  samples := by
    rw [samples_record, h.samples, rtake_concat history d (by decide)]
  sum := sum_record h.sum d
  le_max := by
    intro e he
    rw [max_record]
    rcases List.mem_append.mp he with hold | hnew
    · exact Nat.le_trans (h.le_max e hold) (Nat.le_max_left _ _)
    · rw [List.mem_singleton.mp hnew]
      exact Nat.le_max_right _ _
  max_mem := by
    left
    rw [max_record]
    -- Without a history the greatest duration is zero, and no new one is less.
    rcases Nat.lt_or_ge d.nanos w.max.nanos with hlt | hge
    · rw [show Nat.max w.max.nanos d.nanos = w.max.nanos from Nat.max_eq_left (Nat.le_of_lt hlt)]
      rcases h.max_mem with hmem | ⟨-, hzero⟩
      · exact List.mem_append_left _ hmem
      · rw [hzero] at hlt
        exact absurd hlt (Nat.not_lt_zero _)
    · rw [show Nat.max w.max.nanos d.nanos = d.nanos from Nat.max_eq_right hge]
      exact List.mem_append_right _ List.mem_cons_self

theorem tracks_ofHistory (history : List Duration) : Tracks (ofHistory history) history := by
  induction history using List.reverseRecOn with
  | nil => exact ⟨rfl, rfl, nofun, .inr ⟨rfl, rfl⟩⟩
  | append_singleton history d ih =>
    rw [ofHistory, List.foldl_concat]
    exact ih.record d

theorem Tracks.mem (h : Tracks w history) {d : Duration} (hd : d ∈ w.samples) : d ∈ history := by
  rw [h.samples] at hd
  exact List.mem_of_mem_drop hd

theorem Tracks.count (h : Tracks w history) : w.count = min history.length windowSize := by
  rw [DurationWindow.count, h.samples, List.rtake, List.length_drop]
  omega

theorem Tracks.average (h : Tracks w history) :
    w.average = if history = [] then .zero else ⟨total w.samples / w.count⟩ := by
  split
  · next hnil =>
    have hsamples : w.samples = [] := by rw [h.samples, hnil, List.rtake_nil]
    rw [DurationWindow.average, hsamples, List.length_nil, Nat.div_zero]
    rfl
  · rw [DurationWindow.average, DurationWindow.count, h.sum]

/-- A mean is no greater than the greatest duration. -/
theorem Tracks.average_le_max (h : Tracks w history) : w.average.nanos ≤ w.max.nanos := by
  have htotal : total w.samples ≤ w.samples.length * w.max.nanos :=
    total_le fun d hd => h.le_max d (h.mem hd)
  rw [← h.sum] at htotal
  exact Nat.div_le_of_le_mul htotal

/-- A sum of short durations, as many as a window keeps, has a 64-bit number of seconds. -/
theorem Tracks.seconds_sum_lt (h : Tracks w history) (hshort : ∀ d ∈ history, d.nanos < 2 ^ 64) :
    w.sum.seconds < 2 ^ 64 := by
  have htotal : total w.samples ≤ w.samples.length * 2 ^ 64 :=
    total_le fun d hd => Nat.le_of_lt (hshort d (h.mem hd))
  have hlength : w.samples.length ≤ windowSize := by
    rw [← DurationWindow.count, h.count]
    exact Nat.min_le_right _ _
  rw [Duration.seconds, h.sum]
  refine Nat.div_lt_of_lt_mul ?_
  calc
    total w.samples ≤ w.samples.length * 2 ^ 64 := htotal
    _ ≤ windowSize * 2 ^ 64 := Nat.mul_le_mul_right _ hlength
    _ < Nat.pow 10 9 * 2 ^ 64 := by decide

/-- The window after any history, of durations of less than `2 ^ 64` nanoseconds each, does not
drift. It holds the latest durations, as many as there are up to the size of a window; its sum is
exactly their total, and has a number of seconds that fits 64 bits; and the duration that leaves it
next is taken from the sum whole. Its greatest duration is the greatest of the whole history, zero
if there is none. The mean is the total divided by the number of durations, to the nanosecond below,
zero for an empty window, and is no greater than the greatest duration. -/
theorem window_exact {history : List Duration} (hshort : ∀ d ∈ history, d.nanos < 2 ^ 64) :
    let w := ofHistory history
    (w.samples = history.rtake windowSize ∧ w.count = min history.length windowSize) ∧
      (w.sum.nanos = total w.samples ∧ w.sum.seconds < 2 ^ 64) ∧
      (∀ old rest, w.samples = old :: rest → w.evict.sum.nanos + old.nanos = w.sum.nanos) ∧
      ((∀ d ∈ history, d.nanos ≤ w.max.nanos) ∧
        (w.max ∈ history ∨ history = [] ∧ w.max = .zero)) ∧
      w.average = (if history = [] then .zero else ⟨total w.samples / w.count⟩) ∧
      w.average.nanos ≤ w.max.nanos := by
  intro w
  have h : Tracks w history := tracks_ofHistory history
  exact ⟨⟨h.samples, h.count⟩, ⟨h.sum, h.seconds_sum_lt hshort⟩, fun _ _ => sum_evict_add h.sum,
    ⟨h.le_max, h.max_mem⟩, h.average, h.average_le_max⟩

/-- A long duration that has left the window, and a mean that is rounded down. -/
theorem window_exact_long :
    let history : List Duration := ⟨2 ^ 64 - 1⟩ :: (List.replicate 119 ⟨1⟩ ++ [⟨2⟩])
    let w := ofHistory history
    (∀ d ∈ history, d.nanos < 2 ^ 64) ∧ w.count = 120 ∧ w.sum.nanos = 121 ∧ w.average = ⟨1⟩ ∧
      2 ^ 64 - 1 ≤ w.max.nanos := by
  intro history w
  have hshort : ∀ d ∈ history, d.nanos < 2 ^ 64 := by decide +kernel
  obtain ⟨⟨hsamples, hcount⟩, ⟨hsum, -⟩, -, ⟨hmax, -⟩, haverage, -⟩ := window_exact hshort
  have htotal : total w.samples = 121 := by
    rw [hsamples]
    decide +kernel
  have hfull : min history.length windowSize = 120 := by decide +kernel
  rw [hcount, htotal, hfull] at haverage
  exact ⟨hshort, hcount.trans hfull, hsum.trans htotal, haverage, hmax _ List.mem_cons_self⟩

end LiveHighlight.DurationWindow
