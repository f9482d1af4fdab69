import LiveHighlight.Proofs.Highlight.Currency

/-! What a highlighter still owes its text. Every range that waits to be queried, is being queried
by the worker or has been answered lies inside the text, and whatever bytes are to be dealt with lie
in one of them. -/

namespace LiveHighlight

/-- A range that is not reversed and ends inside a text. -/
structure Document.Holds (d : Document) (r : ByteRange) : Prop where
  ordered : r.start ≤ r.stop
  inside : r.stop ≤ d.length

/-- A way for ranges to lie in a text that edits and cut queries keep. -/
structure Placement (E : SyntaxEngine) (P : Document → ByteRange → Prop) : Prop where
  holds : ∀ {d r}, P d r → d.Holds r
  takes : ∀ {d : Document} {r}, d.Takes r → P d r
  hull : ∀ {d a b}, P d a → P d b → P d (a.hull b)
  carry : ∀ {d e d' r}, d.Edits e d' → d'.length < wordSize → P d r → P d' (e.carryRange r)
  rest : ∀ {g : LoadedGrammar E} {d r}, g.Compiled → P d r → ∀ limits clock,
    let stop := (g.query.runFollowing (E.parse g.language d.chars) d r limits clock).covered.stop
    stop < r.stop → P d ⟨stop, r.stop⟩

/-- Ranges lie between two characters of their text. -/
def Strict (P : Document → ByteRange → Prop) : Prop := ∀ d r, P d r → d.Takes r

theorem placement_holds (E : SyntaxEngine) : Placement E Document.Holds where
  holds h := h
  takes h := ⟨h.ordered, h.le_length⟩
  hull := by
    intro d a b ha hb
    have := ha.ordered
    have := ha.inside
    have := hb.inside
    exact ⟨by simp only [ByteRange.hull]; omega, by simp only [ByteRange.hull]; omega⟩
  carry := by
    intro d e d' r hedit hfits hr
    have hordered := hr.ordered
    have hinside := hr.inside
    refine ⟨TextEdit.start_le_stop_carryRange r, ?_⟩
    rw [hedit.length.2.2.2]
    exact (hedit.sound hfits).carryRange_stop_le (by omega) hinside
  rest _ hr _ _ hstop := ⟨Nat.le_of_lt hstop, hr.inside⟩

theorem placement_takes {E : SyntaxEngine} (hE : E.AlignsCaptures) :
    Placement E Document.Takes where
  holds h := ⟨h.ordered, h.le_length⟩
  takes h := h
  hull := by
    intro d a b ha hb
    have := ha.ordered
    refine ⟨by simp only [ByteRange.hull]; omega, ?_, ?_⟩
    · rcases Nat.le_total a.start b.start with hle | hle
      · simpa only [ByteRange.hull, Nat.min_eq_left hle] using ha.start
      · simpa only [ByteRange.hull, Nat.min_eq_right hle] using hb.start
    · rcases Nat.le_total a.stop b.stop with hle | hle
      · simpa only [ByteRange.hull, Nat.max_eq_right hle] using hb.stop
      · simpa only [ByteRange.hull, Nat.max_eq_left hle] using ha.stop
  carry hedit hfits hr := hedit.takes_carryRange hfits hr
  rest := by
    intro g d r hg hr limits clock stop hstop
    have hvalid : d.isValid stop = true :=
      CompiledQuery.isValid_runFollowing_stop hr fun r => hE g d.chars r hg
    exact ⟨Nat.le_of_lt hstop, hvalid, hr.stop⟩

theorem Placement.hullWith {E : SyntaxEngine} {P : Document → ByteRange → Prop}
    (hP : Placement E P) {d : Document} {a : Option ByteRange} {b : ByteRange}
    (ha : ∀ r, a = some r → P d r) (hb : P d b) : P d (ByteRange.hullWith a b) := by
  cases a with
  | none => exact hb
  | some r => exact hP.hull (ha r rfl) hb

theorem strict_takes : Strict Document.Takes := fun _ _ h => h

/-! ### Rows around ranges -/

namespace ByteRange

theorem contains_hull_left {a b : ByteRange} {i : Nat} (hi : a.contains i = true) :
    (a.hull b).contains i = true := by
  rw [contains_iff] at hi ⊢
  simp only [hull]
  omega

theorem contains_hull_right {a b : ByteRange} {i : Nat} (hi : b.contains i = true) :
    (a.hull b).contains i = true := by
  rw [contains_iff] at hi ⊢
  simp only [hull]
  omega

theorem contains_hullWith {a : Option ByteRange} {b r : ByteRange} (hr : r ∈ b :: a.toList)
    {i : Nat} (hi : r.contains i = true) : (hullWith a b).contains i = true := by
  cases a with
  | none =>
    rw [List.mem_singleton.mp hr] at hi
    exact hi
  | some a =>
    rcases List.mem_cons.mp hr with rfl | hr
    · exact contains_hull_right hi
    · rw [List.mem_singleton.mp hr] at hi
      exact contains_hull_left hi

theorem foldl_hull {rs : List ByteRange} {r : ByteRange} :
    (rs.foldl hull r).start ≤ r.start ∧ r.stop ≤ (rs.foldl hull r).stop ∧
      ∀ q ∈ rs, (rs.foldl hull r).start ≤ q.start ∧ q.stop ≤ (rs.foldl hull r).stop := by
  induction rs generalizing r with
  | nil => simp
  | cons q rs ih =>
    obtain ⟨hstart, hstop, hall⟩ := @ih (r.hull q)
    simp only [hull] at hstart hstop
    refine ⟨by rw [List.foldl_cons]; simp only [hull]; omega,
      by rw [List.foldl_cons]; simp only [hull]; omega, fun p hp => ?_⟩
    rcases List.mem_cons.mp hp with rfl | hp
    · rw [List.foldl_cons]
      simp only [hull]
      omega
    · exact hall p hp

theorem hullOf_around {rs : List ByteRange} {q : ByteRange} (hq : q ∈ rs) :
    ∃ r, hullOf rs = some r ∧ r.start ≤ q.start ∧ q.stop ≤ r.stop := by
  cases rs with
  | nil => exact (List.not_mem_nil hq).elim
  | cons r rs =>
    obtain ⟨hstart, hstop, hall⟩ := @foldl_hull rs r
    refine ⟨_, rfl, ?_⟩
    rcases List.mem_cons.mp hq with rfl | hq
    · exact ⟨hstart, hstop⟩
    · exact hall q hq

theorem exists_foldl_hull_stop (rs : List ByteRange) (r : ByteRange) :
    ∃ q ∈ r :: rs, (rs.foldl hull r).stop = q.stop := by
  induction rs generalizing r with
  | nil => exact ⟨r, List.mem_singleton_self r, rfl⟩
  | cons p rs ih =>
    obtain ⟨q, hq, hstop⟩ := ih (r.hull p)
    rcases List.mem_cons.mp hq with rfl | hq
    · rcases Nat.le_total p.stop r.stop with hle | hle
      · exact ⟨r, List.mem_cons_self .., hstop.trans (Nat.max_eq_left hle)⟩
      · refine ⟨p, ?_, hstop.trans (Nat.max_eq_right hle)⟩
        exact List.mem_cons_of_mem _ (List.mem_cons_self ..)
    · refine ⟨q, ?_, hstop⟩
      exact List.mem_cons_of_mem _ (List.mem_cons_of_mem _ hq)

/-- The hull of ranges ends where one of them does. -/
theorem exists_hullOf_stop {rs : List ByteRange} {r : ByteRange} (hr : hullOf rs = some r) :
    ∃ q ∈ rs, r.stop = q.stop := by
  cases rs with
  | nil => cases hr
  | cons q rs =>
    cases hr
    exact exists_foldl_hull_stop rs q

theorem hullOf_ordered {rs : List ByteRange} (hrs : ∀ r ∈ rs, r.start ≤ r.stop) {r : ByteRange}
    (hr : hullOf rs = some r) : r.start ≤ r.stop := by
  cases rs with
  | nil => cases hr
  | cons q rs =>
    obtain ⟨r', hr', hstart, hstop⟩ := hullOf_around (List.mem_cons_self (a := q) (l := rs))
    have hq := hrs q (List.mem_cons_self ..)
    rw [hr] at hr'
    cases hr'
    omega

end ByteRange

namespace Highlighter

variable {E : SyntaxEngine} {h h' : Highlighter E} {d d' : Document}

theorem takes_wholeText (d : Document) : d.Takes (wholeText d) :=
  ⟨Nat.zero_le _, Document.isValid_zero d, Document.isValid_length d⟩

theorem takes_affectedRows {ranges : List ByteRange} (hranges : ∀ r ∈ ranges, r.start ≤ r.stop)
    (d : Document) : d.Takes (affectedRows ranges d) := by
  refine ⟨?_, Document.isValid_rowStart d _, Document.isValid_rowEnd d _⟩
  unfold affectedRows
  simp only
  have hordered : ((ByteRange.hullOf ranges).getD ⟨0, 0⟩).start ≤
      ((ByteRange.hullOf ranges).getD ⟨0, 0⟩).stop := by
    cases hhull : ByteRange.hullOf ranges with
    | none => exact Nat.le_refl _
    | some r => exact ByteRange.hullOf_ordered hranges hhull
  generalize (ByteRange.hullOf ranges).getD ⟨0, 0⟩ = r at hordered ⊢
  have hstart := Document.rowStart_le (d := d) (min r.start d.length)
  have hstop := Document.le_rowEnd (d := d) (n := min r.stop d.length) (by omega)
  omega

theorem contains_affectedRows {ranges : List ByteRange} {r : ByteRange} (hr : r ∈ ranges) {i : Nat}
    (hi : r.contains i = true) (hd : i < d.length) :
    (affectedRows ranges d).contains i = true := by
  obtain ⟨hull, hhull, hstart, hstop⟩ := ByteRange.hullOf_around hr
  rw [ByteRange.contains_iff] at hi ⊢
  simp only [affectedRows, hhull, Option.getD_some]
  have hbefore := Document.rowStart_le (d := d) (min hull.start d.length)
  have hafter := Document.le_rowEnd (d := d) (n := min hull.stop d.length) (by omega)
  omega

/-! ### Outstanding ranges -/

theorem mem_outstanding {r : ByteRange} :
    r ∈ h.outstanding ↔ ∃ w, h.worker = some w ∧
      ((∃ j ∈ w.jobs, j.generation = h.generation ∧ j.range = r) ∨
        ∃ q ∈ w.results, q.generation = h.generation ∧ q.range = r) := by
  unfold outstanding
  cases hw : h.worker with
  | none => simp
  | some w => simp [and_assoc]

/-- Where there is a job or a result of the present generation, the tree is that of the text. -/
theorem InStep.parsed_of_outstanding (hin : h.InStep d) {r : ByteRange} (hr : r ∈ h.outstanding) :
    ∃ g, h.parser.Parsed d g := by
  obtain ⟨w, hw, ⟨j, hj, hgeneration, -⟩ | ⟨q, hq, hgeneration, -⟩⟩ := mem_outstanding.mp hr
  · obtain ⟨g, hparsed, -⟩ := ((hin.worker w hw).jobs j hj).2 hgeneration
    exact ⟨g, hparsed⟩
  · obtain ⟨g, clock, hparsed, -⟩ := ((hin.worker w hw).results q hq).2 hgeneration
    exact ⟨g, hparsed⟩

theorem InStep.outstanding_of_disabled (hin : h.InStep d) (hoff : h.isDisabled = true) :
    h.outstanding = [] := by
  refine List.eq_nil_iff_forall_not_mem.mpr fun r hr => ?_
  obtain ⟨g, hparsed⟩ := hin.parsed_of_outstanding hr
  exact hin.not_parsed hoff g hparsed

theorem InStep.outstanding_of_newer (hin : h.InStep d) (hworker : h'.worker = h.worker)
    (hgeneration : h.generation < h'.generation) : h'.outstanding = [] := by
  refine List.eq_nil_iff_forall_not_mem.mpr fun r hr => ?_
  obtain ⟨w, hw, hr⟩ := mem_outstanding.mp hr
  have hfits := hin.worker w (hworker ▸ hw)
  rcases hr with ⟨j, hj, hnew, -⟩ | ⟨q, hq, hnew, -⟩
  · have := (hfits.jobs j hj).1
    omega
  · have := (hfits.results q hq).1
    omega

/-! ### What is owed -/

/-- A byte lies in a deferred range. -/
def Defers (h : Highlighter E) (i : Nat) : Prop := ∃ r ∈ h.deferred, r.contains i = true

/-- A byte lies in the range that waits. -/
def Waits (h : Highlighter E) (i : Nat) : Prop :=
  ∃ r, h.state.waiting = some r ∧ r.contains i = true

/-- The account of a highlighter. All its ranges are placed in the text. As far as they are placed
strictly, a byte of `owed` is deferred or waits; and whichever query of the present generation is
taken in next, the byte is deferred or in the range of that query. `asked` are the ranges of answers
about to be taken in. -/
structure Owes (P : Document → ByteRange → Prop) (owed : Nat → Prop) (h : Highlighter E)
    (d : Document) (asked : List ByteRange) : Prop where
  deferred : ∀ r ∈ h.deferred, P d r
  waiting : asked = [] → ∀ r, h.state.waiting = some r → P d r
  placed : ∀ r ∈ asked ++ h.outstanding, P d r
  edits : ∀ r ∈ h.parser.pendingEdits, r.start ≤ r.stop
  off : h.isDisabled = true → h.deferred = []
  attended : Strict P → asked = [] → h.state.waiting.isSome = true →
    h.reparsePending = true ∨ h.worker.isSome = true
  held : Strict P → h.isDisabled = false → asked = [] → ∀ i, owed i → h.Defers i ∨ h.Waits i
  covered : Strict P → ∀ r ∈ asked ++ h.outstanding, ∀ i, owed i →
    h.Defers i ∨ r.contains i = true

variable {P : Document → ByteRange → Prop} {owed owed' : Nat → Prop}

theorem Owes.mono {asked : List ByteRange} (ho : h.Owes P owed d asked)
    (hle : ∀ i, owed' i → owed i) : h.Owes P owed' d asked :=
  { ho with
    held := fun hstrict hon hasked i hi => ho.held hstrict hon hasked i (hle i hi)
    covered := fun hstrict r hr i hi => ho.covered hstrict r hr i (hle i hi) }

/-- Before an answer is taken in, it does not matter which range waits. -/
theorem Owes.of_asked {r : ByteRange} {rest : List ByteRange} (hdeferred : ∀ q ∈ h.deferred, P d q)
    (hplaced : ∀ q ∈ r :: rest ++ h.outstanding, P d q)
    (hedits : ∀ q ∈ h.parser.pendingEdits, q.start ≤ q.stop)
    (hoff : h.isDisabled = true → h.deferred = [])
    (hcovered : Strict P → ∀ q ∈ r :: rest ++ h.outstanding, ∀ i, owed i →
      h.Defers i ∨ q.contains i = true) : h.Owes P owed d (r :: rest) where
  deferred := hdeferred
  waiting hasked := by cases hasked
  placed := hplaced
  edits := hedits
  off := hoff
  attended _ hasked := by cases hasked
  held _ _ hasked := by cases hasked
  covered := hcovered

/-- A parse that is paused leaves its range waiting. -/
theorem Owes.of_paused {r : ByteRange} (hstate : h.state = .pending r)
    (hpending : h.reparsePending = true) (hnone : h.outstanding = [])
    (hdeferred : ∀ q ∈ h.deferred, P d q) (hr : P d r)
    (hedits : ∀ q ∈ h.parser.pendingEdits, q.start ≤ q.stop)
    (hheld : Strict P → ∀ i, owed i → h.Defers i ∨ r.contains i = true) :
    h.Owes P owed d [] := by
  have hwaiting : h.state.waiting = some r := by rw [hstate]; rfl
  have hon : h.isDisabled = false := by rw [isDisabled, hstate]; rfl
  refine ⟨hdeferred, fun _ q hq => ?_, fun q hq => ?_, hedits, fun hoff => ?_,
    fun _ _ _ => .inl hpending, fun hstrict _ _ i hi => ?_, fun _ q hq => ?_⟩
  · cases hwaiting.symm.trans hq
    exact hr
  · exact (List.not_mem_nil (hnone ▸ hq)).elim
  · cases hon.symm.trans hoff
  · exact (hheld hstrict i hi).imp_right fun hri => ⟨r, hwaiting, hri⟩
  · exact (List.not_mem_nil (hnone ▸ hq)).elim

/-- A highlighter that is off owes nothing, in whatever text. -/
theorem owes_of_disabled (hin : h.InStep d) (hoff : h.isDisabled = true)
    (hdeferred : h.deferred = []) (hedits : ∀ r ∈ h.parser.pendingEdits, r.start ≤ r.stop) :
    h.Owes P owed d' [] := by
  have hstate : h.state.waiting = none := by
    rw [isDisabled, beq_iff_eq] at hoff
    rw [hoff]
    rfl
  have hnone : [] ++ h.outstanding = [] := hin.outstanding_of_disabled hoff
  refine ⟨fun r hr => ?_, fun _ r hr => ?_, fun r hr => ?_, hedits, fun _ => hdeferred,
    fun _ _ hr => ?_, fun _ hon => ?_, fun _ r hr => ?_⟩
  · rw [hdeferred] at hr
    exact (List.not_mem_nil hr).elim
  · cases hstate.symm.trans hr
  · rw [hnone] at hr
    exact (List.not_mem_nil hr).elim
  · rw [hstate] at hr
    cases hr
  · cases hon.symm.trans hoff
  · rw [hnone] at hr
    exact (List.not_mem_nil hr).elim

/-- Nothing is owed in an enabled state without pending work. -/
theorem Owes.quiet (ho : h.Owes P owed d []) (hstrict : Strict P) (hon : h.isDisabled = false)
    (hquiet : h.hasPendingWork = false) (i : Nat) : ¬ owed i := by
  intro hi
  simp only [hasPendingWork, Bool.or_eq_false_iff, Bool.not_eq_false', List.isEmpty_iff,
    Option.isSome_eq_false_iff, Option.isNone_iff_eq_none] at hquiet
  rcases ho.held hstrict hon rfl i hi with ⟨r, hr, -⟩ | ⟨r, hr, -⟩
  · rw [hquiet.1.2] at hr
    exact (List.not_mem_nil hr).elim
  · cases hquiet.2.symm.trans hr

/-! ### Answers taken in -/

theorem mem_postponed {requested : ByteRange} {o : QueryAnswer} {r : ByteRange}
    (hr : r ∈ postponed requested o) :
    o.covered.stop < requested.stop ∧ r = ⟨o.covered.stop, requested.stop⟩ := by
  unfold postponed at hr
  split at hr
  · rename_i hcut
    exact ⟨hcut.2, List.mem_singleton.mp hr⟩
  · exact (List.not_mem_nil hr).elim

/-- What an answer leaves of its range is postponed. -/
theorem contains_postponed {requested : ByteRange} {o : QueryAnswer} (hsound : o.Sound d requested)
    {i : Nat} (hi : requested.contains i = true) (hout : o.covered.contains i = false) :
    ∃ r ∈ postponed requested o, r.contains i = true := by
  rw [ByteRange.contains_iff] at hi
  have hpast : o.covered.stop ≤ i := by
    have hstart := hsound.start
    rw [← Bool.not_eq_true, ByteRange.contains_iff] at hout
    omega
  have hcut : o.covered.stop < requested.stop := by omega
  refine ⟨⟨o.covered.stop, requested.stop⟩, ?_, ?_⟩
  · rw [postponed, if_pos ⟨by simpa using hsound.unfinished hcut, hcut⟩]
    exact List.mem_singleton_self _
  · rw [ByteRange.contains_iff]
    exact ⟨hpast, hi.2⟩

/-- Taking in an answer pays for the bytes it covers. -/
theorem Owes.apply {r : ByteRange} {o : QueryAnswer} {rest : List ByteRange}
    (ho : h.Owes P owed d (r :: rest)) (hsound : o.Sound d r)
    (hrest : o.covered.stop < r.stop → P d ⟨o.covered.stop, r.stop⟩)
    (hpaid : ∀ i, owed' i → owed i ∧ o.covered.contains i = false) :
    (h.apply r o).1.Owes P owed' d rest := by
  obtain ⟨stats, happly⟩ := h.apply_fst r o
  rw [happly]
  have hdefers : ∀ i, h.Defers i →
      ({ h.absorb r o with parser := { h.parser with stats } } : Highlighter E).Defers i := by
    rintro i ⟨q, hq, hi⟩
    exact ⟨q, List.mem_append_left _ hq, hi⟩
  refine ⟨fun q hq => ?_, fun _ _ hwaits => (by cases hwaits), fun q hq => ?_, ho.edits,
    fun hoff => (by cases hoff), fun _ _ hwaits => (by cases hwaits),
    fun hstrict _ _ i hi => ?_, fun hstrict q hq i hi => ?_⟩
  · rcases List.mem_append.mp hq with hq | hq
    · exact ho.deferred q hq
    · obtain ⟨hcut, rfl⟩ := mem_postponed hq
      exact hrest hcut
  · exact ho.placed q (List.mem_cons_of_mem r hq)
  · obtain ⟨howed, hout⟩ := hpaid i hi
    left
    rcases ho.covered hstrict r (List.mem_cons_self ..) i howed with hdeferred | hin
    · exact hdefers i hdeferred
    · obtain ⟨q, hq, hi⟩ := contains_postponed hsound hin hout
      exact ⟨q, List.mem_append_right _ hq, hi⟩
  · rcases ho.covered hstrict q (List.mem_cons_of_mem r hq) i (hpaid i hi).1 with hdeferred | hin
    · exact .inl (hdefers i hdeferred)
    · exact .inr hin

theorem Answered.sound {r : ByteRange} {o : QueryAnswer}
    {rest : List (ByteRange × QueryAnswer)} (hanswers : h.Answered d ((r, o) :: rest))
    (hr : d.Holds r) : o.Sound d r := by
  obtain ⟨-, -, hcurrent⟩ := hanswers (r, o) (List.mem_cons_self ..)
  simp only at hcurrent
  generalize h.parser.grammar = grammar at hcurrent
  cases hcurrent with
  | plain => exact QueryAnswer.sound_nothing hr.ordered hr.inside
  | parsed g _ clock => exact CompiledQuery.sound_runFollowing hr.ordered hr.inside

/-- What an answer from the text as it is leaves of its range is placed as the range is. -/
theorem Answered.rest_placed (hP : Placement E P) {r : ByteRange} {o : QueryAnswer}
    {rest : List (ByteRange × QueryAnswer)} (hanswers : h.Answered d ((r, o) :: rest))
    (htracks : h.parser.Tracks d) (hr : P d r) (hcut : o.covered.stop < r.stop) :
    P d ⟨o.covered.stop, r.stop⟩ := by
  obtain ⟨-, -, hcurrent⟩ := hanswers (r, o) (List.mem_cons_self ..)
  have hcompiled := htracks.compiled
  simp only at hcurrent
  generalize h.parser.grammar = grammar at hcurrent hcompiled
  cases hcurrent with
  | plain => exact (Nat.lt_irrefl _ hcut).elim
  | parsed g _ clock => exact hP.rest (hcompiled g rfl) hr _ _ hcut

end Highlighter

end LiveHighlight
