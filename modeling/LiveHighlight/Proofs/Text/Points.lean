import LiveHighlight.Proofs.Text.Positions

/-! Offsets and points say the same of a text. An offset is a way to cut the text in two, its point
counts the rows and the bytes of the last row of the first part, and the rows follow one another
without a gap. -/

namespace LiveHighlight

namespace Utf8

/-! ### Rows as parts of a text -/

theorem newlines_eq_zero {cs : List Char} : newlines cs = 0 ↔ '\n' ∉ cs := by
  induction cs with
  | nil => simp [newlines]
  | cons c cs ih =>
    rw [newlines, Nat.add_eq_zero_iff, ih, List.mem_cons, not_or]
    refine and_congr_left fun _ => ?_
    by_cases hc : c = '\n'
    · simp [hc]
    · simp [hc, Ne.symm hc]

theorem one_le_rowStart {cs : List Char} (hcs : cs ≠ []) (row : Nat) :
    1 ≤ rowStart cs (row + 1) := by
  cases cs with
  | nil => exact absurd rfl hcs
  | cons c cs =>
    have hc := c.utf8Size_pos
    rw [rowStart]
    omega

theorem rowStart_add_lastRowLength (cs : List Char) :
    rowStart cs (newlines cs) + lastRowLength cs = byteLength cs := by
  have hle := rowStart_le cs (newlines cs)
  rw [lastRowLength]
  omega

/-- Every newline before a row is a byte of its own. -/
theorem le_rowStart {cs : List Char} {row : Nat} (h : row ≤ newlines cs) :
    row ≤ rowStart cs row := by
  induction cs generalizing row with
  | nil =>
    rw [newlines] at h
    omega
  | cons c cs ih =>
    cases row with
    | zero => exact Nat.zero_le _
    | succ row =>
      have hc := c.utf8Size_pos
      rw [newlines] at h
      rw [rowStart]
      split
      · rename_i hnew
        rw [if_pos hnew] at h
        have hle : row ≤ newlines cs := by omega
        have hrest := ih hle
        omega
      · rename_i hnew
        rw [if_neg hnew] at h
        have hle : row + 1 ≤ newlines cs := by omega
        have hrest := ih hle
        omega

/-- A row begins before the end of a beginning of the text just when that end is in the row or in a
later one. -/
theorem rowStart_le_iff {front back : List Char} {row : Nat} (h : row ≤ newlines (front ++ back)) :
    rowStart (front ++ back) row ≤ byteLength front ↔ row ≤ newlines front := by
  constructor
  · intro hle
    refine Nat.le_of_not_lt fun hlt => ?_
    obtain ⟨k, rfl⟩ : ∃ k, row = newlines front + (k + 1) := ⟨row - newlines front - 1, by omega⟩
    rw [newlines_append] at h
    have hback : back ≠ [] := by
      rintro rfl
      rw [newlines] at h
      omega
    have hpast := one_le_rowStart hback k
    rw [rowStart_append_right] at hle
    omega
  · intro hle
    rw [rowStart_append_left hle]
    exact rowStart_le front row

theorem exists_rowStart {cs : List Char} {row : Nat} (h : row ≤ newlines cs) :
    ∃ front back, cs = front ++ back ∧ newlines front = row ∧
      byteLength front = rowStart cs row := by
  induction cs generalizing row with
  | nil =>
    obtain rfl : row = 0 := by simpa [newlines] using h
    exact ⟨[], [], rfl, rfl, rfl⟩
  | cons c cs ih =>
    cases row with
    | zero => exact ⟨[], c :: cs, rfl, rfl, rfl⟩
    | succ row =>
      rw [newlines] at h
      by_cases hc : c = '\n'
      · rw [if_pos hc] at h
        have hle : row ≤ newlines cs := by omega
        obtain ⟨front, back, rfl, hrow, hlength⟩ := ih hle
        refine ⟨c :: front, back, rfl, ?_, ?_⟩
        · rw [newlines, if_pos hc, hrow, Nat.add_comm]
        · rw [byteLength, rowStart, if_pos hc, hlength]
      · rw [if_neg hc] at h
        have hle : row + 1 ≤ newlines cs := by omega
        obtain ⟨front, back, rfl, hrow, hlength⟩ := ih hle
        refine ⟨c :: front, back, rfl, ?_, ?_⟩
        · rw [newlines, if_neg hc, hrow, Nat.zero_add]
        · rw [byteLength, rowStart, if_neg hc, hlength]

/-- A row ends with the first newline after its start, or with the text if there is none. -/
theorem exists_rowEnd (back : List Char) :
    ∃ middle rest, back = middle ++ rest ∧ byteLength middle = rowStart back 1 ∧
      ((∃ body, middle = body ++ ['\n'] ∧ '\n' ∉ body) ∨ '\n' ∉ middle ∧ rest = []) := by
  induction back with
  | nil => exact ⟨[], [], rfl, rfl, .inr ⟨by simp, rfl⟩⟩
  | cons c back ih =>
    by_cases hc : c = '\n'
    · refine ⟨[c], back, rfl, ?_, .inl ⟨[], by rw [hc]; rfl, by simp⟩⟩
      rw [rowStart, if_pos hc]
      cases back <;> rfl
    · obtain ⟨middle, rest, rfl, hlength, hend⟩ := ih
      refine ⟨c :: middle, rest, rfl, by rw [byteLength, rowStart, if_neg hc, hlength], ?_⟩
      rcases hend with ⟨body, rfl, hbody⟩ | ⟨hmiddle, hrest⟩
      · exact .inl ⟨c :: body, rfl, by simp [hbody, Ne.symm hc]⟩
      · exact .inr ⟨by simp [hmiddle, Ne.symm hc], hrest⟩

end Utf8

open Utf8

/-- The order in which the points of a text are read. -/
def Point.Before (p q : Point) : Prop := p.row < q.row ∨ p.row = q.row ∧ p.column < q.column

theorem Point.before_advance (p : Point) {written : List Char} (h : written ≠ []) :
    p.Before (p.advance written) := by
  unfold advance Before
  by_cases hrows : newlines written = 0
  · have hlength : byteLength written ≠ 0 := fun hnone => h (eq_nil_of_byteLength hnone)
    right
    simp only [hrows, if_true]
    omega
  · left
    simp only
    omega

namespace Document

variable {d : Document} {o : Nat} {p : Point} {row : Nat} {front back : List Char}

/-! ### Points of offsets -/

theorem isValid_iff :
    d.isValid o = true ↔ ∃ front back, d.chars = front ++ back ∧ byteLength front = o := by
  constructor
  · intro h
    exact ⟨takeBytes d.chars o, dropBytes d.chars o, (takeBytes_append_dropBytes d.chars o).symm,
      byteLength_takeBytes h⟩
  · rintro ⟨front, back, hchars, rfl⟩
    exact isValid_append hchars

theorem pointAt_refused (h : ¬ d.isValid o = true) :
    d.pointAt o = .error (.invalidRange o o d.length) := by
  have hrefused : d.requireRange ⟨o, o⟩ = .error (.invalidRange o o d.length) := by
    rw [requireRange, if_neg fun hr => h hr.2.1]
  rw [pointAt, rowAround, hrefused]
  rfl

theorem pointAt_eq_ok :
    d.pointAt o = .ok p ↔
      ∃ front back, d.chars = front ++ back ∧ byteLength front = o ∧ Point.after front = p := by
  constructor
  · intro h
    by_cases hvalid : d.isValid o = true
    · obtain ⟨front, back, hchars, rfl⟩ := isValid_iff.mp hvalid
      rw [pointAt_append hchars] at h
      exact ⟨front, back, hchars, rfl, Except.ok.inj h⟩
    · rw [pointAt_refused hvalid] at h
      cases h
  · rintro ⟨front, back, hchars, rfl, rfl⟩
    exact pointAt_append hchars

/-! ### Offsets of points -/

theorem rowContent_of_lt (h : row < d.rowCount) :
    d.rowContent row = ⟨rowStart d.chars row,
      if row + 1 < d.rowCount then rowStart d.chars (row + 1) - 1 else d.length⟩ := by
  rw [rowContent, rowRange, if_pos h]
  split
  · rfl
  · have hlast : row = newlines d.chars := by
      unfold rowCount at *
      omega
    have hend := rowStart_append_right d.chars [] 0
    rw [List.append_nil, Nat.zero_add, ← hlast] at hend
    rw [hend]
    rfl

theorem newlines_lt_rowCount (h : d.chars = front ++ back) : newlines front < d.rowCount := by
  rw [rowCount, h, newlines_append]
  omega

theorem rowContent_start_append (h : d.chars = front ++ back) :
    (d.rowContent (newlines front)).start = rowStart front (newlines front) := by
  rw [rowContent_of_lt (newlines_lt_rowCount h), h]
  exact rowStart_append_left (Nat.le_refl _) back

/-- An offset between two characters lies in the content of one row: the one that its text before
leads to. -/
theorem in_rowContent_iff (h : d.chars = front ++ back) (hrow : row < d.rowCount) :
    (d.rowContent row).start ≤ byteLength front ∧ byteLength front ≤ (d.rowContent row).stop ↔
      newlines front = row := by
  have hrows := newlines_append front back
  have hlength := byteLength_append front back
  have hrowStart : ∀ k, k ≤ newlines d.chars →
      (rowStart d.chars k ≤ byteLength front ↔ k ≤ newlines front) := by
    rw [h]
    exact fun k => rowStart_le_iff
  rw [← h] at hrows hlength
  rw [rowContent_of_lt hrow]
  unfold rowCount at *
  have hstart := hrowStart row (by omega)
  simp only
  split
  · rename_i hmore
    have hpast : 1 ≤ rowStart d.chars (row + 1) := by
      refine one_le_rowStart (fun hnil => ?_) row
      rw [hnil, newlines] at hmore
      omega
    have hnext := hrowStart (row + 1) (by omega)
    omega
  · unfold length
    omega

theorem offsetOf_eq_ok : d.offsetOf p = .ok o ↔ d.pointAt o = .ok p := by
  rw [pointAt_eq_ok, offsetOf]
  constructor
  · intro h
    split at h
    · rename_i hin
      obtain ⟨hrow, hstop, hvalid⟩ := hin
      cases h
      obtain ⟨front, back, hchars, hfront⟩ := isValid_iff.mp hvalid
      -- The offset passed the check of its row, so the text before it leads to that row.
      have hrows : newlines front = p.row :=
        (in_rowContent_iff hchars hrow).mp (by rw [hfront]; exact ⟨Nat.le_add_right .., hstop⟩)
      have hstart := rowContent_start_append hchars
      have hlength := rowStart_add_lastRowLength front
      rw [hrows] at hstart hlength
      have hcolumn : lastRowLength front = p.column := by omega
      exact ⟨front, back, hchars, hfront, by rw [Point.after, hrows, hcolumn]⟩
    · cases h
  · rintro ⟨front, back, hchars, rfl, rfl⟩
    have hrow := newlines_lt_rowCount hchars
    have hin := (in_rowContent_iff hchars hrow).mpr rfl
    have hstart : (d.rowContent (newlines front)).start + lastRowLength front =
        byteLength front := by
      rw [rowContent_start_append hchars, rowStart_add_lastRowLength]
    rw [Point.after, hstart, if_pos ⟨hrow, hin.2, isValid_append hchars⟩]

/-- The offset of a point lies at or past its row and column. Any other point is refused, and the
number that the failure tells is no more than the greatest offset. -/
theorem offsetOf_cases (d : Document) (p : Point) :
    (∃ o, d.offsetOf p = .ok o ∧ p.row + p.column ≤ o ∧ o ≤ d.length) ∨
      ∃ n, n = min ((d.rowContent p.row).start + p.column) maxWord ∧
        d.offsetOf p = .error (.invalidRange n n d.length) := by
  cases hoffset : d.offsetOf p with
  | ok o =>
    refine .inl ⟨o, rfl, ?_⟩
    obtain ⟨front, back, hchars, rfl, rfl⟩ := pointAt_eq_ok.mp (offsetOf_eq_ok.mp hoffset)
    have hrows := le_rowStart (Nat.le_refl (newlines front))
    have hlength := rowStart_add_lastRowLength front
    refine ⟨?_, le_length_of_isValid (isValid_append hchars)⟩
    unfold Point.after
    simp only
    omega
  | error failure =>
    refine .inr ⟨_, rfl, ?_⟩
    rw [offsetOf] at hoffset
    split at hoffset
    · cases hoffset
    · exact hoffset.symm

/-! ### Rows -/

/-- A row stands between the newlines before it and its own, which the last row does not have. -/
theorem exists_row (hrow : row < d.rowCount) :
    ∃ front middle back, d.Parts (d.rowRange row) front middle back ∧ newlines front = row ∧
      if row + 1 < d.rowCount then ∃ body, middle = body ++ ['\n'] ∧ '\n' ∉ body
      else '\n' ∉ middle ∧ back = [] := by
  have hrange : d.rowRange row = ⟨rowStart d.chars row, rowStart d.chars (row + 1)⟩ := if_pos hrow
  have hle : row ≤ newlines d.chars := Nat.le_of_lt_succ hrow
  obtain ⟨front, tail, hchars, rfl, hstart⟩ := exists_rowStart hle
  obtain ⟨middle, back, rfl, hmiddle, hend⟩ := exists_rowEnd tail
  have hparts : d.Parts (d.rowRange (newlines front)) front middle back := by
    rw [hrange]
    refine ⟨by rw [hchars, List.append_assoc], hstart, ?_⟩
    show _ = rowStart d.chars (newlines front + (0 + 1))
    rw [hchars, rowStart_append_right, byteLength_append, hmiddle]
  refine ⟨front, middle, back, hparts, rfl, ?_⟩
  have hrows : d.rowCount = newlines front + (newlines middle + newlines back) + 1 := by
    rw [rowCount, hchars, newlines_append, newlines_append]
  rcases hend with ⟨body, rfl, hbody⟩ | ⟨hlast, rfl⟩
  · have hown : newlines (body ++ ['\n']) = 1 := by
      rw [newlines_append, newlines_eq_zero.mpr hbody]
      rfl
    rw [if_pos (by omega)]
    exact ⟨body, rfl, hbody⟩
  · have hnone : newlines ([] : List Char) = 0 := rfl
    rw [newlines_eq_zero.mpr hlast, hnone] at hrows
    rw [if_neg (by omega)]
    exact ⟨hlast, rfl⟩

theorem rowRange_stop (h : row + 1 < d.rowCount) :
    (d.rowRange row).stop = (d.rowRange (row + 1)).start := by
  rw [rowRange, if_pos (by omega), rowRange, if_pos h]

theorem rowRange_last (h : row + 1 = d.rowCount) : (d.rowRange row).stop = d.length := by
  have hrow : row < d.rowCount := by omega
  obtain ⟨front, middle, back, hparts, -, hend⟩ := exists_row hrow
  rw [if_neg (by omega)] at hend
  rw [hparts.length, hend.2]
  rfl

/-! ### The order of points -/

theorem before_of_lt {o' : Nat} {p' : Point} (h : d.pointAt o = .ok p) (h' : d.pointAt o' = .ok p')
    (hlt : o < o') : p.Before p' := by
  obtain ⟨front, back, hchars, rfl, rfl⟩ := pointAt_eq_ok.mp h
  obtain ⟨front', back', hchars', rfl, rfl⟩ := pointAt_eq_ok.mp h'
  -- Both are beginnings of one text, so the longer one goes on from the shorter one.
  rcases List.append_eq_append_iff.mp (hchars.symm.trans hchars') with
    ⟨middle, rfl, -⟩ | ⟨middle, rfl, -⟩
  · rw [Point.after_append]
    refine Point.before_advance _ ?_
    rintro rfl
    simp at hlt
  · rw [byteLength_append] at hlt
    omega

theorem lt_iff_before {o' : Nat} {p' : Point} (h : d.pointAt o = .ok p)
    (h' : d.pointAt o' = .ok p') : o < o' ↔ p.Before p' := by
  refine ⟨before_of_lt h h', fun hbefore => Nat.lt_of_not_le fun hle => ?_⟩
  rcases Nat.lt_or_eq_of_le hle with hlt | rfl
  · have hback := before_of_lt h' h hlt
    unfold Point.Before at hbefore hback
    omega
  · cases h.symm.trans h'
    unfold Point.Before at hbefore
    omega

/-- Offsets and points of a text correspond one to one and in order: an offset at an end of the text
or between two characters has a point, a point has the offset that has this point, and any other is
refused. The rows tile the text, and each but the last ends just after its only newline. -/
theorem points_exact (d : Document) :
    (∀ o, (∃ p, d.pointAt o = .ok p) ↔
      ∃ front back, d.chars = front ++ back ∧ byteLength front = o) ∧
    (∀ o p, d.offsetOf p = .ok o ↔ d.pointAt o = .ok p) ∧
    (∀ p, (∃ o, d.offsetOf p = .ok o ∧ p.row + p.column ≤ o ∧ o ≤ d.length) ∨
      ∃ n, n = min ((d.rowContent p.row).start + p.column) maxWord ∧
        d.offsetOf p = .error (.invalidRange n n d.length)) ∧
    (∀ o p o' p', d.pointAt o = .ok p → d.pointAt o' = .ok p' → (o < o' ↔ p.Before p')) ∧
    (d.rowRange 0).start = 0 ∧
    (∀ row, row + 1 < d.rowCount → (d.rowRange row).stop = (d.rowRange (row + 1)).start) ∧
    (∀ row, row + 1 = d.rowCount → (d.rowRange row).stop = d.length) ∧
    ∀ row < d.rowCount, ∃ front middle back, d.Parts (d.rowRange row) front middle back ∧
      newlines front = row ∧
      if row + 1 < d.rowCount then ∃ body, middle = body ++ ['\n'] ∧ '\n' ∉ body
      else '\n' ∉ middle ∧ back = [] := by
  refine ⟨fun o => ?_, fun o p => offsetOf_eq_ok, d.offsetOf_cases,
    fun o p o' p' h h' => lt_iff_before h h', ?_, fun row => rowRange_stop,
    fun row => rowRange_last, fun row => exists_row⟩
  · constructor
    · rintro ⟨p, hp⟩
      obtain ⟨front, back, hchars, hfront, -⟩ := pointAt_eq_ok.mp hp
      exact ⟨front, back, hchars, hfront⟩
    · rintro ⟨front, back, hchars, rfl⟩
      exact ⟨_, pointAt_append hchars⟩
  · rw [rowRange, if_pos (show 0 < d.rowCount from Nat.succ_pos _)]
    cases d.chars <;> rfl

/-- A newline is the last byte of its row, and the end of the text begins a row after it. Inside a
character and past the end of a row there is nothing. -/
theorem points_exact_newline :
    let d := Document.ofString "é\n"
    d.pointAt 2 = .ok ⟨0, 2⟩ ∧ d.pointAt 3 = .ok ⟨1, 0⟩ ∧ (⟨0, 2⟩ : Point).Before ⟨1, 0⟩ ∧
      d.offsetOf ⟨1, 0⟩ = .ok 3 ∧ (∀ p, d.pointAt 1 ≠ .ok p) ∧ (∀ o, d.offsetOf ⟨0, 3⟩ ≠ .ok o) ∧
      (d.rowRange 0).stop = (d.rowRange 1).start ∧ (d.rowRange 1).stop = 3 := by
  intro d
  obtain ⟨-, hoffsets, -, horder, -, hnext, hlast, -⟩ := points_exact d
  have hnewline : d.pointAt 2 = .ok ⟨0, 2⟩ := rfl
  have hend : d.pointAt 3 = .ok ⟨1, 0⟩ := rfl
  refine ⟨hnewline, hend, (horder 2 _ 3 _ hnewline hend).mp (by decide), (hoffsets 3 _).mpr hend,
    fun p hp => ?_, fun o ho => ?_, hnext 0 (by decide), hlast 1 (by decide)⟩
  · cases hp
  · cases ho

end Document

end LiveHighlight
