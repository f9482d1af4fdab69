import LiveHighlight.Proofs.Highlight.Commas
import LiveHighlight.Proofs.Text.Cursors

/-! How far a query is extended. It goes on to the end of the row in which its captures end, and the
extension limit tells only which row that is: where the row goes on past the limit, so does the
query. -/

namespace LiveHighlight

variable {E : SyntaxEngine}

/-- A query that has ended goes on if a capture runs on past its range and it may be extended. -/
def QueryAnswer.GoesOn (first : QueryAnswer) (r : ByteRange) (limits : QueryBounds) : Prop :=
  first.complete = true ∧ r.stop < first.extent.stop ∧ limits.maxExtension ≠ 0

instance (first : QueryAnswer) (r : ByteRange) (limits : QueryBounds) :
    Decidable (first.GoesOn r limits) :=
  inferInstanceAs (Decidable (_ ∧ _ ∧ _))

namespace CompiledQuery

variable {q : CompiledQuery E} {tree : E.Tree} {d : Document} {r : ByteRange}
  {limits : QueryBounds} {first : QueryAnswer} {elapsed : Nat → Duration}

/-- A look at the clock finds the time of a query over. -/
def TimeOver (limits : QueryBounds) (elapsed : Nat → Duration) : Prop :=
  ∃ seen, 0 < seen ∧ seen % lookInterval = 0 ∧ limits.budget.nanos ≤ (elapsed seen).nanos

/-- A query that does not cover its range has run out of time. -/
theorem run_stopped
    (h : (q.run tree d r limits elapsed).covered.stop < r.stop) :
    (q.run tree d r limits elapsed).complete = false ∧ TimeOver limits elapsed := by
  rw [run_covered] at h
  rw [run_complete]
  cases hstopped : (q.taken tree d r limits elapsed).2 with
  | none =>
    rw [hstopped] at h
    exact absurd h (Nat.lt_irrefl _)
  | some c =>
    obtain ⟨hlook, hlate⟩ := takeInTime_stopped hstopped
    exact ⟨rfl, _, Nat.succ_pos _, hlook, of_decide_eq_true hlate⟩

/-- Where a query ends past which a capture runs, that capture is one of those reported. -/
theorem exists_past (hr : r.start ≤ r.stop)
    (h : r.stop < (q.run tree d r limits elapsed).extent.stop) :
    ∃ c ∈ E.captures q.query tree d.chars r, (q.raw c).isSome = true ∧ r.stop < c.range.stop := by
  obtain ⟨rest, hcs, -⟩ := q.taken_append tree d r limits elapsed
  have hextent : (q.run tree d r limits elapsed).extent =
      (ByteRange.hullOf (((q.taken tree d r limits elapsed).1.filterMap q.raw).map
        (·.range))).getD ⟨r.start, r.start⟩ := rfl
  rw [hextent] at h
  cases hhull : ByteRange.hullOf (((q.taken tree d r limits elapsed).1.filterMap q.raw).map
      (·.range)) with
  | none =>
    rw [hhull, Option.getD_none] at h
    exact absurd h (Nat.not_lt_of_le hr)
  | some e =>
    rw [hhull, Option.getD_some] at h
    obtain ⟨range, hrange, hstop⟩ := ByteRange.exists_hullOf_stop hhull
    obtain ⟨f, hf, rfl⟩ := List.mem_map.mp hrange
    obtain ⟨c, hc, hraw⟩ := List.mem_filterMap.mp hf
    refine ⟨c, ?_, by rw [hraw]; rfl, ?_⟩
    · rw [hcs, List.append_assoc]
      exact List.mem_append_left _ hc
    · rw [← raw_range hraw, ← hstop]
      exact h

/-- Where a query that has ended goes on to. -/
def goal (d : Document) (r : ByteRange) (limits : QueryBounds) (first : QueryAnswer) : Nat :=
  if first.GoesOn r limits then extendedEnd d r limits first else r.stop

/-- A query goes on past its limit: it goes on, the text is longer than the limit allows, and no row
begins between where the captures end and where the limit lies. -/
def Oversteps (d : Document) (r : ByteRange) (limits : QueryBounds) (first : QueryAnswer) : Prop :=
  first.GoesOn r limits ∧ r.stop + limits.maxExtension < d.length ∧
    d.rowAt (min first.extent.stop (r.stop + limits.maxExtension)) =
      d.rowAt (r.stop + limits.maxExtension)

theorem le_goal (hd : r.stop ≤ d.length) : r.stop ≤ goal d r limits first := by
  unfold goal
  split
  · rename_i hgoes
    obtain ⟨-, hpast, -⟩ := hgoes
    refine Nat.le_trans ?_ (Document.le_rowEnd (Nat.min_le_right _ _))
    omega
  · exact Nat.le_refl _

theorem goal_le (hd : r.stop ≤ d.length) :
    goal d r limits first ≤ d.rowEnd (min (r.stop + limits.maxExtension) d.length) := by
  unfold goal
  split
  · apply Document.rowEnd_mono
    omega
  · refine Nat.le_trans ?_ (Document.le_rowEnd (Nat.min_le_right _ _))
    omega

theorem goal_le_length (hd : r.stop ≤ d.length) : goal d r limits first ≤ d.length := by
  refine Nat.le_trans (goal_le hd) (Document.le_length_of_isValid ?_)
  exact Document.isValid_rowEnd d _

theorem lt_goal_iff (hd : r.stop ≤ d.length) :
    r.stop + limits.maxExtension < goal d r limits first ↔ Oversteps d r limits first := by
  rcases Nat.lt_or_ge (r.stop + limits.maxExtension) d.length with hlong | hshort
  · have hend := Document.rowEnd_le_iff
      (m := min first.extent.stop (r.stop + limits.maxExtension)) hlong
    have hrows := Utf8.rowAt_mono d.chars
      (Nat.min_le_right first.extent.stop (r.stop + limits.maxExtension))
    have hwhole : min (min first.extent.stop (r.stop + limits.maxExtension)) d.length =
        min first.extent.stop (r.stop + limits.maxExtension) := by omega
    unfold goal Oversteps
    split
    · rename_i hgoes
      rw [extendedEnd, hwhole]
      constructor
      · intro hpast
        refine ⟨hgoes, hlong, Nat.le_antisymm hrows (Nat.le_of_not_lt fun hearlier => ?_)⟩
        exact Nat.not_le_of_lt hpast (hend.mpr hearlier)
      · rintro ⟨-, -, hrow⟩
        refine Nat.lt_of_not_le fun hle => ?_
        exact Nat.ne_of_lt (hend.mp hle) hrow
    · rename_i hstays
      constructor
      · intro hpast
        omega
      · rintro ⟨hgoes, -⟩
        exact (hstays hgoes).elim
  · have hle : goal d r limits first ≤ d.length := goal_le_length hd
    constructor
    · intro hpast
      omega
    · rintro ⟨-, hlong, -⟩
      omega

/-- The answer of a query that may be extended is that of one query from the start of the range to
where it goes on to, the first one unless it goes on. -/
theorem runFollowing_eq (q : CompiledQuery E) (tree : E.Tree) (limits : QueryBounds) (clock : Clock)
    (hd : r.stop ≤ d.length) :
    let first := q.run tree d r limits (clock.querying 0)
    q.runFollowing tree d r limits clock = first ∧ goal d r limits first = r.stop ∨
      first.GoesOn r limits ∧ q.runFollowing tree d r limits clock =
        q.run tree d ⟨r.start, goal d r limits first⟩ limits (clock.querying 1) := by
  intro first
  rw [runFollowing]
  simp only
  split
  · rename_i hstays
    refine .inl ⟨rfl, if_neg fun hgoes => ?_⟩
    obtain ⟨hcomplete, hpast, hallowed⟩ := hgoes
    rcases hstays with hstays | hstays | hstays
    · rw [hcomplete] at hstays
      cases hstays
    · exact Nat.not_le_of_lt hpast hstays
    · exact hallowed hstays
  · rename_i hgoes
    have hgoes : first.GoesOn r limits := by
      rw [not_or, not_or, Bool.not_eq_true', Bool.not_eq_false] at hgoes
      exact ⟨hgoes.1, Nat.lt_of_not_le hgoes.2.1, hgoes.2.2⟩
    have hgoal : goal d r limits first = extendedEnd d r limits first := if_pos hgoes
    rw [← hgoal]
    split
    · rename_i hnowhere
      exact .inl ⟨rfl, Nat.le_antisymm hnowhere (le_goal hd)⟩
    · exact .inr ⟨hgoes, rfl⟩

/-- How far a query of a range of a text comes. It covers the text from the start of the range up to
where it goes on to, which is never before the end of the range nor past the end of the text; less
only if its time is over. Its answer is not that of a query of the range alone only if that one
ended in time, within its match limit, and a capture runs on past the range. The extension limit
does not bound it: it goes on past the limit, though no further than to the end of the row, exactly
if the text does and the captures that it follows end in that row. -/
theorem runFollowing_bounded (q : CompiledQuery E) (tree : E.Tree) (limits : QueryBounds)
    (clock : Clock) (hr : r.start ≤ r.stop) (hd : r.stop ≤ d.length) :
    let first := q.run tree d r limits (clock.querying 0)
    let o := q.runFollowing tree d r limits clock
    let stop := goal d r limits first
    (o.covered.start = r.start ∧ r.start ≤ o.covered.stop ∧ o.covered.stop ≤ stop ∧
        r.stop ≤ stop ∧ stop ≤ d.length) ∧
      (o.covered.stop < stop → o.complete = false ∧ ∃ run, TimeOver limits (clock.querying run)) ∧
      (o ≠ first → first.complete = true ∧ limits.maxExtension ≠ 0 ∧
        ∃ c ∈ E.captures q.query tree d.chars r, (q.raw c).isSome = true ∧ r.stop < c.range.stop) ∧
      (r.stop + limits.maxExtension < stop ↔ Oversteps d r limits first) ∧
      stop ≤ d.rowEnd (min (r.stop + limits.maxExtension) d.length) := by
  intro first o stop
  have hgoal : r.stop ≤ stop := le_goal hd
  -- The answer is that of one query, from the start of the range to the goal.
  obtain ⟨run, hrun⟩ : ∃ run, o = q.run tree d ⟨r.start, stop⟩ limits (clock.querying run) := by
    rcases runFollowing_eq q tree limits clock hd with ⟨hsame, hnowhere⟩ | ⟨-, hfurther⟩
    · refine ⟨0, hsame.trans ?_⟩
      change _ = q.run tree d ⟨r.start, goal d r limits first⟩ limits _
      rw [hnowhere]
    · exact ⟨1, hfurther⟩
  refine ⟨?_, ?_, ?_, lt_goal_iff hd, goal_le hd⟩
  · obtain ⟨hfrom, hto⟩ := start_le_reach (r := ⟨r.start, stop⟩) (Nat.le_trans hr hgoal)
      (q.taken tree d ⟨r.start, stop⟩ limits (clock.querying run)).2
    rw [hrun, run_covered]
    exact ⟨rfl, hfrom, hto, hgoal, goal_le_length hd⟩
  · intro hshort
    rw [hrun] at hshort ⊢
    obtain ⟨hcomplete, hover⟩ := run_stopped hshort
    exact ⟨hcomplete, run, hover⟩
  · intro hother
    rcases runFollowing_eq q tree limits clock hd with
      ⟨hsame, -⟩ | ⟨⟨hcomplete, hpast, hallowed⟩, -⟩
    · exact (hother hsame).elim
    · exact ⟨hcomplete, hallowed, exists_past hr hpast⟩

/-- Of a range that may grow by one byte three more are queried, to the end of the row in which the
capture of the first comma ends. -/
theorem runFollowing_bounded_row :
    let d : Document := ⟨[',', '\n', ',', ',', ',', ',']⟩
    let q : CompiledQuery Commas.nested := ⟨"", [some .comment]⟩
    let tree : List Nat := Commas.offsets 0 d.chars
    let limits : QueryBounds := ⟨.ofMicros 1, 64, 1⟩
    2 ≤ d.length ∧ (q.runFollowing tree d ⟨0, 2⟩ limits .steady).covered = ⟨0, 6⟩ ∧
      2 + limits.maxExtension < (q.runFollowing tree d ⟨0, 2⟩ limits .steady).covered.stop ∧
      (q.run tree d ⟨0, 2⟩ limits (Clock.steady.querying 0)).complete = true ∧
      Oversteps d ⟨0, 2⟩ limits (q.run tree d ⟨0, 2⟩ limits (Clock.steady.querying 0)) := by
  intro d q tree limits
  have hlength : 2 ≤ d.length := by decide
  obtain ⟨⟨-, -, hgoal, -⟩, -, hextended, hpast, -⟩ :=
    runFollowing_bounded (r := ⟨0, 2⟩) q tree limits .steady (Nat.zero_le 2) hlength
  have hcovered : (q.runFollowing tree d ⟨0, 2⟩ limits .steady).covered = ⟨0, 6⟩ := by
    decide +kernel
  have hfar : 2 + limits.maxExtension <
      (q.runFollowing tree d ⟨0, 2⟩ limits .steady).covered.stop := by
    rw [hcovered]
    decide
  refine ⟨hlength, hcovered, hfar, ?_, hpast.mp (Nat.lt_of_lt_of_le hfar hgoal)⟩
  refine (hextended fun hsame => ?_).1
  have hfirst : (q.run tree d ⟨0, 2⟩ limits (Clock.steady.querying 0)).covered = ⟨0, 2⟩ := by
    decide +kernel
  rw [← hsame, hcovered] at hfirst
  exact absurd hfirst (by decide)

end CompiledQuery

end LiveHighlight
