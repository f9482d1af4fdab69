import LiveHighlight.Highlight.Highlighter

/-! Answers taken in one after the other. Of the results of a worker the accepted ones count, in
turn, and of the others only how many they are. -/

namespace LiveHighlight.Highlighter

variable {E : SyntaxEngine}

/-- Taking in an answer changes spans and what is left to do, and counts an update. -/
theorem apply_fst (h : Highlighter E) (r : ByteRange) (o : QueryAnswer) :
    ∃ stats, (h.apply r o).1 = { h.absorb r o with parser := { h.parser with stats } } := by
  unfold apply
  split
  · exact ⟨_, rfl⟩
  · exact ⟨h.parser.stats, rfl⟩

theorem accepts_apply {h : Highlighter E} (hon : h.isDisabled = false) (r : ByteRange)
    (o : QueryAnswer) : (h.apply r o).1.accepts = h.accepts := by
  obtain ⟨stats, happly⟩ := h.apply_fst r o
  have hdone : (h.apply r o).1.isDisabled = false := by rw [happly]; rfl
  have hgeneration : (h.apply r o).1.generation = h.generation := by rw [happly]; rfl
  funext result
  rw [accepts, accepts, hgeneration, hdone, hon]

/-- Takes in answers one after the other. -/
def applyAll (h : Highlighter E) : List (ByteRange × QueryAnswer) → Highlighter E × List Repaint
  | [] => (h, [])
  | answer :: rest =>
    let first := h.apply answer.1 answer.2
    let others := applyAll first.1 rest
    (others.1, first.2 ++ others.2)

/-- It makes no difference to an answer whether a discarded result is counted before or after. -/
theorem apply_discard (h : Highlighter E) (count : Nat) (r : ByteRange) (o : QueryAnswer) :
    (h.discard count).apply r o = ((h.apply r o).1.discard count, (h.apply r o).2) := by
  have hrepainted : (h.discard count).repaintedBy o = h.repaintedBy o := rfl
  rw [apply, apply, hrepainted]
  cases h.repaintedBy o <;> rfl

theorem discard_discard (h : Highlighter E) (m n : Nat) :
    (h.discard m).discard n = h.discard (m + n) := by
  simp only [discard, stats, Nat.add_assoc]

theorem applyAll_discard (h : Highlighter E) (count : Nat)
    (answers : List (ByteRange × QueryAnswer)) :
    (h.discard count).applyAll answers =
      ((h.applyAll answers).1.discard count, (h.applyAll answers).2) := by
  induction answers generalizing h with
  | nil => rfl
  | cons answer rest ih => simp only [applyAll, apply_discard, ih]

theorem apply_discarded (h : Highlighter E) (r : ByteRange) (o : QueryAnswer) :
    (h.apply r o).1.stats.discardedResults = h.stats.discardedResults := by
  unfold apply
  cases h.repaintedBy o <;> rfl

theorem applyAll_discarded (h : Highlighter E) (answers : List (ByteRange × QueryAnswer)) :
    (h.applyAll answers).1.stats.discardedResults = h.stats.discardedResults := by
  induction answers generalizing h with
  | nil => rfl
  | cons answer rest ih => exact (ih _).trans (apply_discarded h _ _)

/-- The results of the worker that are of the present generation. -/
def kept (h : Highlighter E) (results : List JobResult) : List (ByteRange × QueryAnswer) :=
  (results.filter h.accepts).map fun r => (r.range, r.answer)

theorem kept_cons (h : Highlighter E) (r : JobResult) (rs : List JobResult) :
    h.kept (r :: rs) = if h.accepts r then (r.range, r.answer) :: h.kept rs else h.kept rs := by
  rw [kept, List.filter_cons]
  split <;> rfl

theorem length_kept_le (h : Highlighter E) (results : List JobResult) :
    (h.kept results).length ≤ results.length := by
  rw [kept, List.length_map]
  exact List.length_filter_le _ _

theorem kept_of_accepts {h h' : Highlighter E} (heq : h'.accepts = h.accepts)
    (results : List JobResult) : h'.kept results = h.kept results := by
  rw [kept, kept, heq]

/-- Taking in results is taking in the accepted ones and counting the others. -/
theorem receiveAll_eq (h : Highlighter E) (results : List JobResult) :
    h.receiveAll results =
      ⟨(h.applyAll (h.kept results)).1.discard (results.length - (h.kept results).length),
        (h.applyAll (h.kept results)).2, (h.kept results).length⟩ := by
  induction results generalizing h with
  | nil => rfl
  | cons r rs ih =>
    have hle := h.length_kept_le rs
    rw [receiveAll, ih, kept_cons]
    by_cases hr : h.accepts r = true
    · have hon : h.isDisabled = false := by
        rw [accepts, Bool.and_eq_true, Bool.not_eq_true'] at hr
        exact hr.2
      rw [receive, if_pos hr, if_pos hr, kept_of_accepts (accepts_apply hon _ _)]
      simp only [applyAll, List.length_cons, Nat.add_sub_add_right, Nat.add_comm 1]
    · rw [receive, if_neg hr, if_neg hr,
        kept_of_accepts (show (h.discard 1).accepts = h.accepts from rfl)]
      simp only [applyAll_discard, List.nil_append, Nat.zero_add, List.length_cons]
      rw [discard_discard, Nat.sub_add_comm hle, Nat.add_comm _ 1]

/-- The highlighter with all results of its worker taken. -/
def emptied (h : Highlighter E) : Highlighter E :=
  { h with worker := h.worker.map fun w => { w with results := [] } }

/-- Polling takes in the results of the present generation and counts the others. -/
theorem poll_eq {h : Highlighter E} {w : Worker E} (hw : h.worker = some w) :
    h.poll =
      ⟨(h.emptied.applyAll (h.kept w.results)).1.discard
          (w.results.length - (h.kept w.results).length),
        (h.emptied.applyAll (h.kept w.results)).2, (h.kept w.results).length⟩ := by
  have hemptied : h.emptied = { h with worker := some { w with results := [] } } := by
    rw [emptied, hw]
    rfl
  have hkept := kept_of_accepts (show h.emptied.accepts = h.accepts from rfl) w.results
  rw [poll, hw, ← hkept, ← receiveAll_eq, hemptied]

end LiveHighlight.Highlighter
