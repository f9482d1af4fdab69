import LiveHighlight.Proofs.Text.Edits

/-! The position of an offset is where writing the text before it leads to. So the end of a
replacement can be told before it is made, and what an edit says when it is worked out comes true in
the document that it leads to. -/

namespace LiveHighlight

namespace Utf8

/-! ### Rows of texts in two parts -/

theorem newlines_append (front back : List Char) :
    newlines (front ++ back) = newlines front + newlines back := by
  induction front with
  | nil => simp [newlines]
  | cons c front ih => simp [newlines, ih, Nat.add_assoc]

theorem rowAt_append (front back : List Char) :
    rowAt (front ++ back) (byteLength front) = newlines front := by
  induction front with
  | nil => simp [byteLength, newlines]
  | cons c front ih =>
    have hc := c.utf8Size_pos
    obtain ⟨n, hn⟩ : ∃ n, byteLength (c :: front) = n + 1 :=
      ⟨byteLength (c :: front) - 1, by rw [byteLength]; omega⟩
    have hrest : n + 1 - c.utf8Size = byteLength front := by
      rw [byteLength] at hn
      omega
    rw [List.cons_append, hn, rowAt, hrest, ih, newlines]

theorem rowStart_append_left {front : List Char} {row : Nat} (h : row ≤ newlines front)
    (back : List Char) : rowStart (front ++ back) row = rowStart front row := by
  induction front generalizing row with
  | nil =>
    obtain rfl : row = 0 := by simpa [newlines] using h
    cases back <;> rfl
  | cons c front ih =>
    cases row with
    | zero => rfl
    | succ row =>
      rw [newlines] at h
      rw [List.cons_append, rowStart, rowStart]
      by_cases hc : c = '\n'
      · rw [if_pos hc] at h ⊢
        rw [ih (by omega)]
      · rw [if_neg hc] at h ⊢
        rw [ih (by omega)]

theorem rowStart_append_right (front back : List Char) (row : Nat) :
    rowStart (front ++ back) (newlines front + (row + 1)) =
      byteLength front + rowStart back (row + 1) := by
  induction front with
  | nil => simp [newlines, byteLength]
  | cons c front ih =>
    rw [List.cons_append, newlines, byteLength]
    by_cases hc : c = '\n'
    · rw [if_pos hc, show 1 + newlines front + (row + 1) = newlines front + (row + 1) + 1 by omega,
        rowStart, if_pos hc, ih, Nat.add_assoc]
    · rw [if_neg hc, Nat.zero_add, ← Nat.add_assoc, rowStart, if_neg hc, Nat.add_assoc,
        Nat.add_assoc, ih]

/-- A text without a newline lengthens the last row; any other begins a row of its own. -/
theorem lastRowLength_append (front back : List Char) :
    lastRowLength (front ++ back) =
      if newlines back = 0 then lastRowLength front + byteLength back else lastRowLength back := by
  unfold lastRowLength
  rw [byteLength_append, newlines_append]
  cases hrows : newlines back with
  | zero =>
    have hstart := rowStart_le front (newlines front)
    rw [if_pos rfl, Nat.add_zero, rowStart_append_left (Nat.le_refl _)]
    omega
  | succ row =>
    rw [if_neg (by omega), rowStart_append_right]
    omega

end Utf8

open Utf8

/-- The point that writing a text leads to. -/
def Point.after (cs : List Char) : Point := ⟨newlines cs, lastRowLength cs⟩

theorem Point.after_append (front written : List Char) :
    Point.after (front ++ written) = (Point.after front).advance written := by
  unfold after advance
  rw [newlines_append, lastRowLength_append]

namespace Document

variable {d d' : Document} {r : ByteRange} {front middle back : List Char}

/-- The point of an offset is told by the text before it. -/
theorem pointAt_append (h : d.chars = front ++ back) :
    d.pointAt (byteLength front) = .ok (.after front) := by
  have hvalid := isValid_append h
  have htaken : d.requireRange ⟨byteLength front, byteLength front⟩ = .ok () :=
    requireRange_eq_ok.mpr ⟨Nat.le_refl _, hvalid, hvalid⟩
  have hrow : d.rowAt (byteLength front) = newlines front := by
    rw [rowAt, h]
    exact rowAt_append front back
  have hstart : (d.rowRange (d.rowAt (byteLength front))).start =
      rowStart front (newlines front) := by
    rw [rowRange_rowAt, hrow, h]
    exact rowStart_append_left (Nat.le_refl _) back
  rw [pointAt, rowAround, htaken]
  show Except.ok (Point.mk (d.rowAt (byteLength front))
    (byteLength front - (d.rowRange (d.rowAt (byteLength front))).start)) = _
  rw [hstart, hrow]
  rfl

theorem positionAt_append (h : d.chars = front ++ back) :
    d.positionAt (byteLength front) = .ok ⟨byteLength front, .after front⟩ := by
  rw [positionAt, pointAt_append h]
  rfl

/-! ### Edits of a text in parts -/

theorem Parts.planEdit (h : d.Parts r front middle back) (text : String) :
    d.planEdit r text = .ok
      { start := ⟨r.start, .after front⟩
        oldEnd := ⟨r.stop, .after (front ++ middle)⟩
        newEnd := ⟨r.start + byteLength text.toList, .after (front ++ text.toList)⟩
        replacement := text } := by
  have hstart := positionAt_append h.chars_left
  have hstop := positionAt_append h.chars
  rw [h.start] at hstart
  rw [h.stop] at hstop
  rw [Document.planEdit, requireRange_eq_ok.mpr h.takes, hstart, hstop,
    Point.after_append front text.toList]
  rfl

/-! ### Replacing in place -/

/-- The document without the text of a range. -/
def erase (d : Document) (r : ByteRange) : Document :=
  ⟨takeBytes d.chars r.start ++ dropBytes d.chars r.stop⟩

/-- The document with a text put in at an offset. -/
def insert (d : Document) (offset : Nat) (text : String) : Document :=
  ⟨takeBytes d.chars offset ++ text.toList ++ dropBytes d.chars offset⟩

/-- Replaces the text of a range in place: checks the range, takes the old text out, puts the new
one in. What has been changed stays changed if a later step fails. -/
def rewrite (r : ByteRange) (text : String) : EStateM HighlightFailure Document Unit := do
  match (← get).requireRange r with
  | .error failure => throw failure
  | .ok () =>
    modify fun d => if r.start < r.stop then d.erase r else d
    modify fun d => if text = "" then d else d.insert r.start text

theorem Parts.erased (h : d.Parts r front middle back) :
    (if r.start < r.stop then d.erase r else d) = ⟨front ++ back⟩ := by
  split
  · rw [erase, h.before, h.behind]
  · rename_i hempty
    have hlength := byteLength_append front middle
    rw [h.start, h.stop] at hlength
    have hmiddle : middle = [] := eq_nil_of_byteLength (by omega)
    have hchars := h.chars
    rw [hmiddle, List.append_nil] at hchars
    rw [← hchars]

theorem inserted_append (front back : List Char) (text : String) :
    (if text = "" then ⟨front ++ back⟩
      else (⟨front ++ back⟩ : Document).insert (byteLength front) text) =
      ⟨front ++ text.toList ++ back⟩ := by
  split
  · rename_i hnone
    rw [hnone, String.toList_empty, List.append_nil]
  · rw [insert, takeBytes_append, dropBytes_append]

/-- Replacing in place ends with the document that is worked out, or fails and leaves all as it
is. -/
theorem rewrite_run (d : Document) (r : ByteRange) (text : String) :
    (rewrite r text).run d =
      match d.replace r text with
      | .ok d' => .ok () d'
      | .error failure => .error failure d := by
  show ((match d.requireRange r with
    | .error failure => throw failure
    | .ok () => do
      modify fun d => if r.start < r.stop then d.erase r else d
      modify fun d => if text = "" then d else d.insert r.start text :
    EStateM HighlightFailure Document Unit)).run d = _
  cases hrange : d.requireRange r with
  | error failure =>
    rw [Document.replace, hrange]
    rfl
  | ok =>
    obtain ⟨front, middle, back, hparts⟩ := (requireRange_eq_ok.mp hrange).parts
    rw [hparts.replace, ← inserted_append, hparts.start, ← hparts.erased]
    rfl

/-! ### Edits and what they lead to -/

end Document

/-- What an edit says of the document it is worked out on and of the one that it leads to. -/
structure TextEdit.Foretells (e : TextEdit) (d : Document) (r : ByteRange) (text : String)
    (d' : Document) : Prop where
  start : d.positionAt r.start = .ok e.start
  oldEnd : d.positionAt r.stop = .ok e.oldEnd
  start_after : d'.positionAt e.start.offset = .ok e.start
  newEnd_after : d'.positionAt e.newEnd.offset = .ok e.newEnd
  length : (d'.length : Int) = d.length + e.delta
  chars : ∃ front middle back, d.Parts r front middle back ∧
    d'.chars = front ++ text.toList ++ back

namespace Document

variable {d d' : Document} {r : ByteRange} {text : String} {e : TextEdit}

theorem foretells_of_planEdit (hplan : d.planEdit r text = .ok e)
    (hreplace : d.replace r text = .ok d') : e.Foretells d r text d' := by
  obtain ⟨-, -, hinside, hgrown⟩ := Edits.length ⟨r, text, hplan, hreplace⟩
  have hlength : (d'.length : Int) = d.length + e.delta := by
    simp only [TextEdit.delta, Int.ofNat_eq_natCast]
    omega
  obtain ⟨front, middle, back, hparts⟩ := (planEdit_eq_ok hplan).1.parts
  rw [hparts.planEdit] at hplan
  rw [hparts.replace] at hreplace
  cases hplan
  cases hreplace
  -- The new text begins with what stood before the range and with the replacement after it, and
  -- these two alone tell both positions.
  have hfront : (⟨front ++ text.toList ++ back⟩ : Document).chars =
      front ++ (text.toList ++ back) := List.append_assoc ..
  have hwritten : byteLength (front ++ text.toList) = r.start + byteLength text.toList := by
    rw [byteLength_append, hparts.start]
  constructor
  · exact hparts.start ▸ positionAt_append hparts.chars_left
  · exact hparts.stop ▸ positionAt_append hparts.chars
  · exact hparts.start ▸ positionAt_append hfront
  · exact hwritten ▸ positionAt_append rfl
  · exact hlength
  · exact ⟨front, middle, back, hparts, rfl⟩

/-- An edit is worked out on a document if and only if the text can be replaced, and what it
foretells comes true. Otherwise both fail alike, and replacing in place leaves the text as it is. -/
theorem planEdit_exact (d : Document) (r : ByteRange) (text : String) :
    (d.Takes r ∧ ∃ e d', d.planEdit r text = .ok e ∧ d.replace r text = .ok d' ∧
      (rewrite r text).run d = .ok () d' ∧ e.Foretells d r text d') ∨
    (¬ d.Takes r ∧ ∃ failure, failure = .invalidRange r.start r.stop d.length ∧
      d.planEdit r text = .error failure ∧ d.replace r text = .error failure ∧
      (rewrite r text).run d = .error failure d) := by
  have hrun := rewrite_run d r text
  by_cases htakes : d.Takes r
  · obtain ⟨e, d', hplan, hreplace⟩ := htakes.edits text
    rw [hreplace] at hrun
    exact .inl ⟨htakes, e, d', hplan, hreplace, hrun, foretells_of_planEdit hplan hreplace⟩
  · have hrefused : d.requireRange r = .error (.invalidRange r.start r.stop d.length) := by
      rw [requireRange, if_neg fun hr => htakes ⟨hr.1, hr.2.1, hr.2.2⟩]
    have hreplace : d.replace r text = .error (.invalidRange r.start r.stop d.length) := by
      rw [Document.replace, hrefused]
      rfl
    have hplan : d.planEdit r text = .error (.invalidRange r.start r.stop d.length) := by
      rw [Document.planEdit, hrefused]
      rfl
    rw [hreplace] at hrun
    exact .inr ⟨htakes, _, rfl, hplan, hreplace, hrun⟩

end Document

end LiveHighlight
