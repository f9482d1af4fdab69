import LiveHighlight.Proofs.Text.Points
import LiveHighlight.Text.Cursor
import Mathlib.Data.Nat.Dist
import Mathlib.Order.Bounds.Basic

/-! Where cursors stand in a text, wherever the host says they are. A cursor stands at the last
place between two characters of its row that is not past its column, or at the end of the text if it
has no such row. Its distance from a range is the least one between its row and the rows of the
range. -/

namespace LiveHighlight

namespace Utf8

theorem rowStart_mono (cs : List Char) {row row' : Nat} (h : row ≤ row') :
    rowStart cs row ≤ rowStart cs row' := by
  induction cs generalizing row row' with
  | nil =>
    cases row <;> cases row' <;> exact Nat.le_refl _
  | cons c cs ih =>
    cases row with
    | zero =>
      rw [rowStart]
      exact Nat.zero_le _
    | succ row =>
      obtain ⟨k, rfl⟩ : ∃ k, row' = k + 1 := ⟨row' - 1, by omega⟩
      rw [rowStart, rowStart]
      have hrest : rowStart cs (if c = '\n' then row else row + 1) ≤
          rowStart cs (if c = '\n' then k else k + 1) := by
        apply ih
        split <;> omega
      omega

theorem rowAt_mono (cs : List Char) {m n : Nat} (h : m ≤ n) : rowAt cs m ≤ rowAt cs n := by
  induction cs generalizing m n with
  | nil => exact Nat.le_refl _
  | cons c cs ih =>
    cases m with
    | zero =>
      rw [rowAt_zero]
      exact Nat.zero_le _
    | succ m =>
      obtain ⟨k, rfl⟩ : ∃ k, n = k + 1 := ⟨n - 1, by omega⟩
      rw [rowAt, rowAt]
      have hrest := ih (show m + 1 - c.utf8Size ≤ k + 1 - c.utf8Size by omega)
      omega

theorem rowAt_byteLength (cs : List Char) : rowAt cs (byteLength cs) = newlines cs := by
  have h := rowAt_append cs []
  rw [List.append_nil] at h
  exact h

theorem rowAt_rowStart {cs : List Char} {row : Nat} (h : row ≤ newlines cs) :
    rowAt cs (rowStart cs row) = row := by
  obtain ⟨front, back, rfl, hrow, hlength⟩ := exists_rowStart h
  rw [← hlength, rowAt_append, hrow]

end Utf8

open Utf8

namespace Document

variable {d : Document} {row row' o : Nat}

theorem rowAt_length (d : Document) : d.rowAt d.length = d.rowCount - 1 := rowAt_byteLength d.chars

/-- An offset past the end of a text counts as the end. -/
theorem rowAt_min_length (d : Document) (o : Nat) : d.rowAt (min o d.length) = d.rowAt o := by
  rcases Nat.le_total o d.length with hle | hle
  · rw [Nat.min_eq_left hle]
  · rw [Nat.min_eq_right hle]
    apply Nat.le_antisymm
    · exact rowAt_mono d.chars hle
    · rw [rowAt_length]
      exact rowAt_le_newlines d.chars o

theorem rowEnd_mono (d : Document) {m n : Nat} (h : m ≤ n) : d.rowEnd m ≤ d.rowEnd n := by
  rw [rowEnd, rowEnd, rowRange_rowAt, rowRange_rowAt]
  apply rowStart_mono
  exact Nat.succ_le_succ (rowAt_mono d.chars h)

/-- The row of an offset ends before another place in the text if that one is in a later row. -/
theorem rowEnd_le_iff {m n : Nat} (hn : n < d.length) : d.rowEnd m ≤ n ↔ d.rowAt m < d.rowAt n := by
  rw [rowEnd, rowRange_rowAt]
  simp only
  constructor
  · intro hend
    have hrow : d.rowAt m + 1 ≤ newlines d.chars := by
      refine Nat.lt_of_le_of_ne (rowAt_le_newlines d.chars m) fun hlast => ?_
      -- The last row ends with the text.
      have hall := le_rowStart_succ (Nat.le_refl (byteLength d.chars))
      rw [rowAt_byteLength, ← hlast] at hall
      exact Nat.not_lt_of_le (Nat.le_trans hall hend) hn
    have hback := rowAt_mono d.chars hend
    rw [rowAt_rowStart hrow] at hback
    exact hback
  · intro hrow
    exact Nat.le_trans (rowStart_mono d.chars hrow) (rowStart_rowAt_le d.chars n)

theorem rowContent_past (h : d.rowCount ≤ row) : d.rowContent row = ⟨d.length, d.length⟩ := by
  rw [rowContent, rowRange, if_neg (by omega), if_neg (by omega)]

theorem isValid_rowContent_start (d : Document) (row : Nat) :
    d.isValid (d.rowContent row).start = true := by
  rcases Nat.lt_or_ge row d.rowCount with hrow | hrow
  · rw [rowContent_of_lt hrow]
    exact isBoundary_rowStart d.chars row
  · rw [rowContent_past hrow]
    exact d.isValid_length

theorem rowContent_ordered (d : Document) (row : Nat) :
    (d.rowContent row).start ≤ (d.rowContent row).stop := by
  rcases Nat.lt_or_ge row d.rowCount with hrow | hrow
  · obtain ⟨front, middle, back, hparts, -, hend⟩ := exists_row hrow
    have hlength := byteLength_append front middle
    have hstart := hparts.start
    have hstop := hparts.stop
    rw [rowContent]
    split
    · -- The newline at the end of the row is a byte of its own.
      rename_i hmore
      rw [if_pos hmore] at hend
      obtain ⟨body, rfl, -⟩ := hend
      have hbody := byteLength_append body ['\n']
      have hnewline : byteLength ['\n'] = 1 := rfl
      simp only
      omega
    · omega
  · rw [rowContent_past hrow]

/-- The content of a row ends before the next row begins. -/
theorem rowContent_stop_le (h : row < row') :
    (d.rowContent row).stop ≤ (d.rowContent row').start := by
  rcases Nat.lt_or_ge row' d.rowCount with hrow | hrow
  · have hmono := rowStart_mono d.chars (show row + 1 ≤ row' from h)
    rw [rowContent_of_lt hrow, rowContent_of_lt (by omega), if_pos (by omega)]
    simp only
    omega
  · rw [rowContent_past hrow]
    rcases Nat.lt_or_ge row d.rowCount with hrow | hrow
    · have hlast := Utf8.rowStart_le d.chars (row + 1)
      rw [rowContent_of_lt hrow]
      simp only
      split
      · exact Nat.le_trans (Nat.sub_le _ _) hlast
      · exact Nat.le_refl _
    · rw [rowContent_past hrow]

end Document

/-! ### Offsets of cursors -/

namespace Cursor

variable {d : Document} {floor n o : Nat} {c : Cursor}

theorem lastValid_le (d : Document) (floor n : Nat) : lastValid d floor n ≤ n := by
  induction n with
  | zero => exact Nat.le_refl _
  | succ n ih =>
    rw [lastValid]
    split
    · exact Nat.le_succ_of_le ih
    · exact Nat.le_refl _

theorem le_lastValid (ho : d.isValid o = true) (hle : o ≤ n) : o ≤ lastValid d floor n := by
  induction n with
  | zero => exact hle
  | succ n ih =>
    rw [lastValid]
    split
    · rename_i hstep
      have hne : o ≠ n + 1 := by
        rintro rfl
        simp [ho] at hstep
      exact ih (by omega)
    · exact hle

theorem isValid_lastValid (hfloor : d.isValid floor = true) (hle : floor ≤ n) :
    d.isValid (lastValid d floor n) = true := by
  induction n with
  | zero => exact d.isValid_zero
  | succ n ih =>
    rw [lastValid]
    split
    · exact ih (by omega)
    · rename_i hstop
      rcases Nat.lt_or_eq_of_le hle with hlt | rfl
      · simpa [hlt] using hstop
      · exact hfloor

/-- A cursor stands at the greatest of the places that its row has up to its column. The sum of the
row's start and the column may be cut off anywhere past the text. -/
theorem toOffset_greatest (d : Document) (c : Cursor) {cap : Nat} (hcap : d.length ≤ cap) :
    IsGreatest
      {o | d.isValid o = true ∧ (d.rowContent c.line).start ≤ o ∧ o ≤ (d.rowContent c.line).stop ∧
        o ≤ min ((d.rowContent c.line).start + c.column) cap} (c.toOffset d) := by
  have hstart := d.isValid_rowContent_start c.line
  have hordered := d.rowContent_ordered c.line
  have hfrom : (d.rowContent c.line).start ≤
      min ((d.rowContent c.line).start + c.column) (d.rowContent c.line).stop := by omega
  have hvalid : d.isValid (c.toOffset d) = true := isValid_lastValid hstart hfrom
  constructor
  · have hle : c.toOffset d ≤ _ := lastValid_le d _ _
    have hlength := Document.le_length_of_isValid hvalid
    exact ⟨hvalid, le_lastValid hstart hfrom, by omega, by omega⟩
  · rintro o ⟨ho, -, hstop, hcolumn⟩
    apply le_lastValid ho
    omega

theorem toOffset_past (h : d.rowCount ≤ c.line) : c.toOffset d = d.length := by
  obtain ⟨⟨-, hstart, hstop, -⟩, -⟩ := toOffset_greatest d c (Nat.le_refl _)
  rw [Document.rowContent_past h] at hstart hstop
  exact Nat.le_antisymm hstop hstart

theorem toOffset_mono (d : Document) {a b : Cursor} (h : a.le b = true) :
    a.toOffset d ≤ b.toOffset d := by
  obtain ⟨⟨hvalid, hstart, hstop, hcolumn⟩, -⟩ := toOffset_greatest d a (Nat.le_refl _)
  obtain ⟨⟨-, hstart', -, -⟩, hgreatest⟩ := toOffset_greatest d b (Nat.le_refl _)
  simp only [Cursor.le, Bool.or_eq_true, Bool.and_eq_true, decide_eq_true_eq, beq_iff_eq] at h
  rcases h with hline | ⟨hline, hle⟩
  · have hrows := Document.rowContent_stop_le (d := d) hline
    omega
  · apply hgreatest
    rw [← hline]
    exact ⟨hvalid, hstart, hstop, by omega⟩

theorem toOffset_ofPoint {p : Point} (h : d.pointAt o = .ok p) : (ofPoint p).toOffset d = o := by
  obtain ⟨front, back, hchars, rfl, rfl⟩ := Document.pointAt_eq_ok.mp h
  obtain ⟨⟨-, -, -, hcolumn⟩, hgreatest⟩ := toOffset_greatest d (ofPoint (.after front))
    (Nat.le_refl _)
  have hrow := Document.newlines_lt_rowCount hchars
  obtain ⟨hstart, hstop⟩ := (Document.in_rowContent_iff hchars hrow).mpr rfl
  have hreach := rowStart_add_lastRowLength front
  rw [← Document.rowContent_start_append hchars] at hreach
  have hvalid := Document.isValid_append hchars
  have hlength := Document.le_length_of_isValid hvalid
  apply Nat.le_antisymm
  · exact Nat.le_trans hcolumn (Nat.le_trans (Nat.min_le_left _ _) (Nat.le_of_eq hreach))
  · exact hgreatest ⟨hvalid, hstart, hstop,
      Nat.le_min.mpr ⟨Nat.le_of_eq hreach.symm, hlength⟩⟩

/-- The row in which a cursor is taken to be: its own, or the last one of the text. -/
def rowIn (c : Cursor) (d : Document) : Nat := min c.line (d.rowCount - 1)

theorem rowAt_toOffset (d : Document) (c : Cursor) : d.rowAt (c.toOffset d) = c.rowIn d := by
  rcases Nat.lt_or_ge c.line d.rowCount with hline | hline
  · obtain ⟨⟨hvalid, hstart, hstop, -⟩, -⟩ := toOffset_greatest d c (Nat.le_refl _)
    obtain ⟨front, back, hchars, hfront⟩ := Document.isValid_iff.mp hvalid
    rw [← hfront] at hstart hstop ⊢
    have hrow := (Document.in_rowContent_iff hchars hline).mp ⟨hstart, hstop⟩
    rw [Document.rowAt, hchars, rowAt_append, hrow, rowIn]
    omega
  · rw [toOffset_past hline, Document.rowAt_length, rowIn]
    omega

/-- A cursor's offset is the nearest place to its left. It lies between two characters: at the end
of the text if the cursor is past the last row, and else at the greatest place of the row without
its newline that is no further than the column, the sum of the row's start and the column being cut
off anywhere past the text. A later cursor is no further to the left, and a cursor at the point of a
place has the offset of that place. -/
theorem toOffset_exact (d : Document) :
    (∀ c : Cursor, d.isValid (c.toOffset d) = true ∧
      (d.rowCount ≤ c.line → c.toOffset d = d.length) ∧
      (c.line < d.rowCount → ∀ cap, d.length ≤ cap → IsGreatest
        {o | d.isValid o = true ∧ (d.rowContent c.line).start ≤ o ∧
          o ≤ (d.rowContent c.line).stop ∧
          o ≤ min ((d.rowContent c.line).start + c.column) cap} (c.toOffset d))) ∧
      (∀ a b : Cursor, a.le b = true → a.toOffset d ≤ b.toOffset d) ∧
      ∀ o, d.isValid o = true → ∃ p, d.pointAt o = .ok p ∧ (ofPoint p).toOffset d = o := by
  refine ⟨fun c => ⟨?_, toOffset_past, fun _ cap hcap => toOffset_greatest d c hcap⟩,
    fun a b => toOffset_mono d, fun o ho => ?_⟩
  · obtain ⟨⟨hvalid, -⟩, -⟩ := toOffset_greatest d c (Nat.le_refl _)
    exact hvalid
  · obtain ⟨front, back, hchars, hfront⟩ := Document.isValid_iff.mp ho
    have hpoint := Document.pointAt_append hchars
    rw [hfront] at hpoint
    exact ⟨_, hpoint, toOffset_ofPoint hpoint⟩

/-- Before a character that a column splits, at the end of a row that is shorter, and at the end of
the text for a row that there is not. -/
theorem toOffset_exact_split :
    let d := Document.ofString "aé\nb\n"
    (⟨0, 2⟩ : Cursor).toOffset d = 1 ∧ (⟨0, maxWord⟩ : Cursor).toOffset d = 3 ∧
      (⟨maxWord, 0⟩ : Cursor).toOffset d = 6 ∧
      (⟨0, maxWord⟩ : Cursor).toOffset d ≤ (⟨1, 0⟩ : Cursor).toOffset d ∧
      ∃ p, d.pointAt 3 = .ok p ∧ (ofPoint p).toOffset d = 3 := by
  intro d
  obtain ⟨hplaces, hmono, hpoints⟩ := toOffset_exact d
  refine ⟨by decide, ?_, (hplaces ⟨maxWord, 0⟩).2.1 (by decide), hmono _ _ (by decide),
    hpoints 3 (by decide)⟩
  have hgreatest := (hplaces ⟨0, maxWord⟩).2.2 (by decide) maxWord (by decide)
  apply hgreatest.unique
  constructor
  · exact ⟨by decide, by decide, by decide, by decide⟩
  · rintro o ⟨-, -, hstop, -⟩
    exact hstop

end Cursor

/-! ### Distances from cursors -/

/-- A range has a byte in a row, or begins there. -/
def Document.Touches (d : Document) (r : ByteRange) (row : Nat) : Prop :=
  ∃ o, (o = r.start ∨ r.contains o = true) ∧ d.rowAt o = row

namespace Cursors

variable {cursors : Cursors} {d : Document} {r : ByteRange}

/-- The rows that a range touches are those from its first to its last one. -/
theorem touches_iff {row : Nat} :
    d.Touches r row ↔ (rowsOf d r).1 ≤ row ∧ row ≤ (rowsOf d r).2 := by
  simp only [rowsOf, Document.rowAt_min_length]
  constructor
  · rintro ⟨o, ho, rfl⟩
    rw [ByteRange.contains_iff] at ho
    constructor
    · apply rowAt_mono
      omega
    · apply rowAt_mono
      omega
  · rintro ⟨hfirst, hlast⟩
    rcases Nat.lt_or_eq_of_le hfirst with hlt | heq
    · -- A row after the first one begins within the range.
      have hrow : row ≤ newlines d.chars :=
        Nat.le_trans hlast (rowAt_le_newlines d.chars _)
      have hat : d.rowAt (rowStart d.chars row) = row := rowAt_rowStart hrow
      refine ⟨rowStart d.chars row, .inr ?_, hat⟩
      have hfrom : r.start < rowStart d.chars row := by
        refine Nat.lt_of_not_le fun hle => ?_
        have hback := rowAt_mono d.chars hle
        rw [rowAt_rowStart hrow] at hback
        exact Nat.not_le_of_lt hlt hback
      have hto : rowStart d.chars row ≤ max (r.stop - 1) r.start :=
        Nat.le_trans (rowStart_mono d.chars hlast) (rowStart_rowAt_le d.chars _)
      rw [ByteRange.contains_iff]
      omega
    · exact ⟨r.start, .inl rfl, heq⟩

theorem rowDistance_least {first last : Nat} (h : first ≤ last) (row : Nat) :
    (∃ k, first ≤ k ∧ k ≤ last ∧ rowDistance first last row = Nat.dist row k) ∧
      ∀ k, first ≤ k → k ≤ last → rowDistance first last row ≤ Nat.dist row k := by
  unfold rowDistance Nat.dist
  constructor
  · split
    · exact ⟨first, Nat.le_refl _, h, by omega⟩
    · split
      · exact ⟨last, h, Nat.le_refl _, by omega⟩
      · exact ⟨row, by omega, by omega, by omega⟩
  · intro k hfrom hto
    split
    · omega
    · split <;> omega

/-- So many rows lie between a range and the nearest cursor: the fewest between the row of a cursor
and a row of the range. Without cursors it is as many as a word can tell. -/
def Away (cursors : Cursors) (d : Document) (r : ByteRange) (n : Nat) : Prop :=
  if cursors.positions = [] then n = maxWord
  else IsLeast
    {k | ∃ c ∈ cursors.positions, ∃ row, d.Touches r row ∧ k = Nat.dist (c.rowIn d) row} n

theorem away_distanceTo (cursors : Cursors) (d : Document) (r : ByteRange) :
    cursors.Away d r (cursors.distanceTo d r) := by
  have hrows : (rowsOf d r).1 ≤ (rowsOf d r).2 := by
    obtain ⟨hfirst, hlast⟩ := touches_iff.mp ⟨r.start, .inl rfl, rfl⟩
    exact Nat.le_trans hfirst hlast
  unfold Away distanceTo
  simp only
  split
  · rename_i hnone
    rw [hnone]
    rfl
  · rename_i hsome
    cases hleast : (cursors.positions.map fun c =>
        rowDistance (rowsOf d r).1 (rowsOf d r).2 (d.rowAt (c.toOffset d))).min? with
    | none =>
      rw [List.min?_eq_none_iff, List.map_eq_nil_iff] at hleast
      exact (hsome hleast).elim
    | some n =>
      obtain ⟨hmem, hle⟩ := List.min?_eq_some_iff.mp hleast
      obtain ⟨c, hc, rfl⟩ := List.mem_map.mp hmem
      rw [Option.getD_some]
      constructor
      · obtain ⟨⟨row, hfirst, hlast, hdist⟩, -⟩ :=
          rowDistance_least hrows (d.rowAt (c.toOffset d))
        refine ⟨c, hc, row, touches_iff.mpr ⟨hfirst, hlast⟩, ?_⟩
        rw [hdist, Cursor.rowAt_toOffset]
      · rintro k ⟨c', hc', row, htouches, rfl⟩
        obtain ⟨hfirst, hlast⟩ := touches_iff.mp htouches
        have hnearest := (rowDistance_least hrows (c'.rowIn d)).2 row hfirst hlast
        rw [← Cursor.rowAt_toOffset] at hnearest ⊢
        exact Nat.le_trans (hle _ (List.mem_map_of_mem hc')) hnearest

theorem Away.unique {m n : Nat} (hm : cursors.Away d r m) (hn : cursors.Away d r n) : m = n := by
  unfold Away at hm hn
  by_cases hnone : cursors.positions = []
  · rw [if_pos hnone] at hm hn
    rw [hm, hn]
  · rw [if_neg hnone] at hm hn
    exact hm.unique hn

/-! ### The order of work -/

theorem before_iff {a b : Nat × ByteRange} :
    before a b = true ↔ a.1 < b.1 ∨ a.1 = b.1 ∧ a.2.start ≤ b.2.start := by
  simp [before]

/-- Ranges come nearest first, and of those equally near the one that begins first. -/
theorem pairwise_byProximity (cursors : Cursors) (d : Document) (ranges : List ByteRange) :
    (cursors.byProximity d ranges).Pairwise fun a b =>
      before (cursors.distanceTo d a, a) (cursors.distanceTo d b, b) = true := by
  have htrans : ∀ a b c, before a b = true → before b c = true → before a c = true := by
    intro a b c hab hbc
    rw [before_iff] at hab hbc ⊢
    omega
  have htotal : ∀ a b, (before a b || before b a) = true := by
    intro a b
    rw [Bool.or_eq_true, before_iff, before_iff]
    omega
  have hsorted := List.pairwise_mergeSort htrans htotal
    (ranges.map fun r => (cursors.distanceTo d r, r))
  refine List.pairwise_map.mpr (hsorted.imp_of_mem fun ha hb hab => ?_)
  obtain ⟨a, -, rfl⟩ := List.mem_map.mp (List.mem_mergeSort.mp ha)
  obtain ⟨b, -, rfl⟩ := List.mem_map.mp (List.mem_mergeSort.mp hb)
  exact hab

/-- No other range is nearer to the cursors, and none that is as near begins earlier. -/
def Nearest (cursors : Cursors) (d : Document) (next : ByteRange) (others : List ByteRange) :
    Prop :=
  ∃ n, cursors.Away d next n ∧
    ∀ r ∈ others, ∃ k, cursors.Away d r k ∧ (n < k ∨ n = k ∧ next.start ≤ r.start)

theorem nearest_of_byProximity {ranges others : List ByteRange} {next : ByteRange}
    (h : cursors.byProximity d ranges = next :: others) : cursors.Nearest d next others := by
  have hsorted := cursors.pairwise_byProximity d ranges
  rw [h] at hsorted
  refine ⟨_, cursors.away_distanceTo d next, ?_⟩
  intro r hr
  refine ⟨_, cursors.away_distanceTo d r, ?_⟩
  exact before_iff.mp ((List.pairwise_cons.mp hsorted).1 r hr)

end Cursors

end LiveHighlight
