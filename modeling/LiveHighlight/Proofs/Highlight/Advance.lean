import LiveHighlight.Proofs.Highlight.Owed

/-! How far a query gets that runs out of time. Every capture that it is given counts towards the
next look at the clock, also those that begin before its range and only reach into it. So a query
gets past a byte if fewer captures are around the byte than lie between two looks, and with no time
at all it gets no further than to a byte with as many. -/

namespace LiveHighlight

variable {E : SyntaxEngine} {found : LoadedGrammar E → List Char → List QueryCapture}

/-- What is assumed of a parser: `found` gives the captures of a text in the order of their starts,
and a query reports, in this order, captures that meet its range; all of them if it keeps within its
match limit. -/
structure SyntaxEngine.Reports (E : SyntaxEngine)
    (found : LoadedGrammar E → List Char → List QueryCapture) : Prop where
  ordersDifferences : E.OrdersDifferences
  alignsCaptures : E.AlignsCaptures
  sorted : ∀ g text, g.Compiled →
    (found g text).Pairwise fun a b => a.range.start ≤ b.range.start
  reported : ∀ (g : LoadedGrammar E) text r, g.Compiled → r.start < r.stop →
    (E.captures g.query.query (E.parse g.language text) text r).Sublist
      ((found g text).filter (QueryCapture.meets r))
  ranged : ∀ (g : LoadedGrammar E) text r limit, g.Compiled → r.start < r.stop →
    E.exceeds g.query.query (E.parse g.language text) text r limit = false →
    E.captures g.query.query (E.parse g.language text) text r =
      (found g text).filter (QueryCapture.meets r)

/-- How many captures of a text are around a byte. -/
def LoadedGrammar.depth (found : LoadedGrammar E → List Char → List QueryCapture)
    (g : LoadedGrammar E) (d : Document) (i : Nat) : Nat :=
  (found g d.chars).countP (·.range.contains i)

namespace CompiledQuery

variable {late : Nat → Bool} {seen : Nat} {cs : List QueryCapture}

/-- A query stops only as it looks at the clock and finds its time over. -/
theorem takeInTime_stopped {c : QueryCapture} (h : (takeInTime late seen cs).2 = some c) :
    (seen + (takeInTime late seen cs).1.length + 1) % lookInterval = 0 ∧
      late (seen + (takeInTime late seen cs).1.length + 1) = true := by
  induction cs generalizing seen with
  | nil => cases h
  | cons first cs ih =>
    rw [takeInTime] at h ⊢
    split
    · rename_i hlook
      exact hlook
    · rename_i hgoes
      rw [if_neg hgoes] at h
      have hrest := ih h
      rw [Nat.add_right_comm seen 1] at hrest
      exact hrest

/-- A query without time stops as it looks at the clock for the first time. -/
theorem takeInTime_late (hlate : ∀ n, late n = true) (hseen : seen < lookInterval) :
    takeInTime late seen cs =
      (cs.take (lookInterval - 1 - seen), cs[lookInterval - 1 - seen]?) := by
  induction cs generalizing seen with
  | nil => simp [takeInTime]
  | cons first cs ih =>
    rw [takeInTime]
    by_cases hlook : (seen + 1) % lookInterval = 0
    · have hzero : lookInterval - 1 - seen = 0 := by
        simp only [lookInterval] at hlook hseen ⊢
        omega
      rw [if_pos ⟨hlook, hlate _⟩, hzero]
      rfl
    · have hnext : seen + 1 < lookInterval := by
        simp only [lookInterval] at hlook hseen ⊢
        omega
      have hsucc : lookInterval - 1 - seen = (lookInterval - 1 - (seen + 1)) + 1 := by omega
      rw [if_neg fun h => hlook h.1, ih hnext, hsucc]
      simp

/-- Captures up to one that begins no later than a byte are around the byte if they end past it. -/
theorem length_lt_of_start_le {front rest : List QueryCapture} {c : QueryCapture} {i : Nat}
    (hsorted : (front ++ c :: rest).Pairwise fun a b => a.range.start ≤ b.range.start)
    (hpast : ∀ a ∈ front ++ c :: rest, i < a.range.stop) (hc : c.range.start ≤ i) :
    front.length < (front ++ c :: rest).countP (·.range.contains i) := by
  have hfront : front.countP (·.range.contains i) = front.length := by
    refine List.countP_eq_length.mpr fun a ha => ?_
    have hac := (List.pairwise_append.mp hsorted).2.2 a ha c (List.mem_cons_self ..)
    have hai := hpast a (List.mem_append_left _ ha)
    exact ByteRange.contains_iff.mpr ⟨Nat.le_trans hac hc, hai⟩
  have hci : c.range.contains i = true :=
    ByteRange.contains_iff.mpr ⟨hc, hpast c (List.mem_append_right _ (List.mem_cons_self ..))⟩
  have hone : 0 < (c :: rest).countP (·.range.contains i) :=
    List.countP_pos_iff.mpr ⟨c, List.mem_cons_self .., hci⟩
  rw [List.countP_append, hfront]
  omega

/-- Captures from one on that begins past a byte are not around the byte. -/
theorem countP_le_of_lt_start {front rest : List QueryCapture} {c : QueryCapture} {i : Nat}
    (hsorted : (front ++ c :: rest).Pairwise fun a b => a.range.start ≤ b.range.start)
    (hc : i < c.range.start) :
    (front ++ c :: rest).countP (·.range.contains i) ≤ front.length := by
  have hrest : (c :: rest).countP (·.range.contains i) = 0 := by
    refine List.countP_eq_zero.mpr fun a ha => ?_
    have hca : c.range.start ≤ a.range.start := by
      rcases List.mem_cons.mp ha with rfl | ha
      · exact Nat.le_refl _
      · exact (List.pairwise_cons.mp (List.pairwise_append.mp hsorted).2.1).1 a ha
    rw [ByteRange.contains_iff]
    omega
  rw [List.countP_append, hrest]
  exact List.countP_le_length

variable {q : CompiledQuery E} {tree : E.Tree} {d : Document} {r : ByteRange}
  {limits : QueryBounds} {elapsed : Nat → Duration}

theorem taken_stopped {c : QueryCapture} (h : (q.taken tree d r limits elapsed).2 = some c) :
    ∃ rest, E.captures q.query tree d.chars r =
        (q.taken tree d r limits elapsed).1 ++ c :: rest ∧
      lookInterval ≤ (q.taken tree d r limits elapsed).1.length + 1 := by
  obtain ⟨rest, hcs, -⟩ := q.taken_append tree d r limits elapsed
  have hlook := (takeInTime_stopped h).1
  refine ⟨rest, ?_, ?_⟩
  · rw [h, Option.toList_some, List.append_assoc] at hcs
    exact hcs
  · change (0 + (q.taken tree d r limits elapsed).1.length + 1) % lookInterval = 0 at hlook
    rw [Nat.zero_add] at hlook
    exact Nat.le_of_dvd (Nat.succ_pos _) (Nat.dvd_of_mod_eq_zero hlook)

theorem taken_late (hbudget : limits.budget = .zero) :
    q.taken tree d r limits elapsed =
      ((E.captures q.query tree d.chars r).take (lookInterval - 1),
        (E.captures q.query tree d.chars r)[lookInterval - 1]?) := by
  refine takeInTime_late (fun n => ?_) (by decide)
  rw [hbudget]
  exact decide_eq_true (Nat.zero_le _)

end CompiledQuery

namespace LoadedGrammar

open CompiledQuery

variable {g : LoadedGrammar E} {d : Document} {r : ByteRange} {limits : QueryBounds}

theorem run_advances (hE : E.Reports found) (hg : g.Compiled) (hr : r.start < r.stop)
    (hdepth : g.depth found d r.start < lookInterval) (elapsed : Nat → Duration) :
    r.start < (g.query.run (E.parse g.language d.chars) d r limits elapsed).covered.stop := by
  rw [run_covered]
  cases hstopped : (g.query.taken (E.parse g.language d.chars) d r limits elapsed).2 with
  | none => exact hr
  | some c =>
    obtain ⟨rest, hcs, hlong⟩ := taken_stopped hstopped
    have hreported := hE.reported g d.chars r hg hr
    have hsorted := ((hE.sorted g d.chars hg).filter _).sublist hreported
    have hpast : ∀ a ∈ E.captures g.query.query (E.parse g.language d.chars) d.chars r,
        r.start < a.range.stop := by
      intro a ha
      have hmeets := (List.mem_filter.mp (hreported.subset ha)).2
      simp only [QueryCapture.meets, Bool.and_eq_true, decide_eq_true_eq] at hmeets
      exact hmeets.1
    have hcount : (E.captures g.query.query (E.parse g.language d.chars) d.chars r).countP
        (·.range.contains r.start) ≤ g.depth found d r.start :=
      (hreported.trans List.filter_sublist).countP_le
    have hstart : r.start < c.range.start := by
      refine Nat.lt_of_not_le fun hle => ?_
      have hmany := length_lt_of_start_le (hcs ▸ hsorted) (hcs ▸ hpast) hle
      rw [← hcs] at hmany
      omega
    simp only [reach, Option.map_some, Option.getD_some]
    omega

/-- A query gets past the first byte of its range if few captures are around that. -/
theorem runFollowing_advances (hE : E.Reports found) (hg : g.Compiled) (hr : r.start < r.stop)
    (hdepth : g.depth found d r.start < lookInterval) (clock : Clock) :
    r.start <
      (g.query.runFollowing (E.parse g.language d.chars) d r limits clock).covered.stop := by
  obtain ⟨stop, run, hstop, hrun⟩ :=
    runFollowing_cases g.query (E.parse g.language d.chars) d r limits clock
  rw [hrun]
  exact run_advances (r := ⟨r.start, stop⟩) hE hg (by simp only; omega) hdepth _

theorem run_held (hE : E.Reports found) (hg : g.Compiled) (hbudget : limits.budget = .zero)
    (hlimit : E.exceeds g.query.query (E.parse g.language d.chars) d.chars r
      limits.matchLimit = false) {i : Nat} (hi : r.contains i = true)
    (hdepth : lookInterval ≤ g.depth found d i) (elapsed : Nat → Duration) :
    let o := g.query.run (E.parse g.language d.chars) d r limits elapsed
    o.complete = false ∧ o.covered.stop ≤ i := by
  rw [ByteRange.contains_iff] at hi
  have hall := hE.ranged g d.chars r limits.matchLimit hg (by omega) hlimit
  have hsorted := (hE.sorted g d.chars hg).filter (QueryCapture.meets r)
  rw [← hall] at hsorted
  have hcount : g.depth found d i =
      (E.captures g.query.query (E.parse g.language d.chars) d.chars r).countP
        (·.range.contains i) := by
    rw [hall, List.countP_filter, depth]
    refine List.countP_congr fun c _ => ?_
    simp only [QueryCapture.meets, Bool.and_eq_true, ByteRange.contains_iff, decide_eq_true_eq]
    omega
  have htaken : g.query.taken (E.parse g.language d.chars) d r limits elapsed = _ :=
    taken_late hbudget
  have hlong : lookInterval - 1 <
      (E.captures g.query.query (E.parse g.language d.chars) d.chars r).length := by
    rw [hcount] at hdepth
    exact Nat.lt_of_lt_of_le (by decide) (Nat.le_trans hdepth List.countP_le_length)
  have hstopped := (congrArg Prod.snd htaken).trans (List.getElem?_eq_getElem hlong)
  obtain ⟨rest, hcs, -⟩ := taken_stopped hstopped
  have hfront : (g.query.taken (E.parse g.language d.chars) d r limits elapsed).1.length ≤
      lookInterval - 1 := by
    rw [htaken]
    exact List.length_take_le ..
  simp only [run_complete, run_covered, hstopped, reach, Option.isNone_some, Bool.false_and,
    Option.map_some, Option.getD_some, true_and]
  have hstart := Nat.le_of_not_lt fun hlt => by
    have hfew := countP_le_of_lt_start (hcs ▸ hsorted) hlt
    rw [← hcs, ← hcount] at hfew
    simp only [lookInterval] at hfew hfront hdepth
    omega
  omega

/-- A query without time gets no further than to a byte with many captures around it. -/
theorem runFollowing_held (hE : E.Reports found) (hg : g.Compiled)
    (hbudget : limits.budget = .zero)
    (hlimit : E.exceeds g.query.query (E.parse g.language d.chars) d.chars r
      limits.matchLimit = false) {i : Nat} (hi : r.contains i = true)
    (hdepth : lookInterval ≤ g.depth found d i) (clock : Clock) :
    let o := g.query.runFollowing (E.parse g.language d.chars) d r limits clock
    o.complete = false ∧ o.covered.stop ≤ i := by
  have hheld := run_held hE hg hbudget hlimit hi hdepth (clock.querying 0)
  simp only at hheld ⊢
  unfold runFollowing
  simp only
  rw [if_pos (.inl (by rw [hheld.1]; rfl))]
  exact hheld

end LoadedGrammar

end LiveHighlight
