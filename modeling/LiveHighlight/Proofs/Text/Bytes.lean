import LiveHighlight.Text.Document

/-! Texts measured in bytes: where characters begin, what lies before and after an offset or a
range, and the row around it. -/

namespace LiveHighlight

namespace Utf8

/-! ### Characters -/

@[simp]
theorem byteLength_append (a b : List Char) :
    byteLength (a ++ b) = byteLength a + byteLength b := by
  induction a with
  | nil => simp [byteLength]
  | cons c a ih => simp [byteLength, ih, Nat.add_assoc]

@[simp]
theorem isBoundary_zero (cs : List Char) : isBoundary cs 0 = true := by
  cases cs <;> rfl

theorem isBoundary_cons {c : Char} {cs : List Char} {n : Nat} (h : c.utf8Size ≤ n) :
    isBoundary (c :: cs) n = isBoundary cs (n - c.utf8Size) := by
  have hc := c.utf8Size_pos
  obtain ⟨m, rfl⟩ : ∃ m, n = m + 1 := ⟨n - 1, by omega⟩
  rw [isBoundary, if_neg (by omega)]

theorem isBoundary_cons_lt {c : Char} {cs : List Char} {n : Nat} (h : n < c.utf8Size) :
    isBoundary (c :: cs) n = true ↔ n = 0 := by
  cases n with
  | zero => simp
  | succ n => simp [isBoundary, h]

theorem le_byteLength_of_isBoundary {cs : List Char} {n : Nat} (h : isBoundary cs n = true) :
    n ≤ byteLength cs := by
  induction cs generalizing n with
  | nil => cases n <;> simp_all [isBoundary]
  | cons c cs ih =>
    by_cases hn : c.utf8Size ≤ n
    · rw [isBoundary_cons hn] at h
      have := ih h
      rw [byteLength]
      omega
    · rw [isBoundary_cons_lt (by omega)] at h
      omega

theorem isBoundary_append_right (a b : List Char) (n : Nat) :
    isBoundary (a ++ b) (byteLength a + n) = isBoundary b n := by
  induction a with
  | nil => simp [byteLength]
  | cons c a ih =>
    rw [List.cons_append, byteLength, isBoundary_cons (by omega), ← ih]
    congr 1
    omega

theorem isBoundary_append_left {a : List Char} (b : List Char) {n : Nat} (h : n ≤ byteLength a) :
    isBoundary (a ++ b) n = isBoundary a n := by
  induction a generalizing n with
  | nil =>
    obtain rfl : n = 0 := by simpa [byteLength] using h
    simp
  | cons c a ih =>
    rw [byteLength] at h
    by_cases hn : c.utf8Size ≤ n
    · rw [List.cons_append, isBoundary_cons hn, isBoundary_cons hn, ih (by omega)]
    · rw [Bool.eq_iff_iff, List.cons_append, isBoundary_cons_lt (by omega),
        isBoundary_cons_lt (by omega)]

theorem isBoundary_byteLength (cs : List Char) : isBoundary cs (byteLength cs) = true := by
  have := isBoundary_append_right cs [] 0
  simpa using this

theorem takeBytes_append_dropBytes (cs : List Char) (n : Nat) :
    takeBytes cs n ++ dropBytes cs n = cs := by
  induction cs generalizing n with
  | nil => rfl
  | cons c cs ih =>
    rw [takeBytes, dropBytes]
    split
    · rw [List.cons_append, ih]
    · rfl

theorem byteLength_takeBytes {cs : List Char} {n : Nat} (h : isBoundary cs n = true) :
    byteLength (takeBytes cs n) = n := by
  induction cs generalizing n with
  | nil => cases n <;> simp_all [isBoundary, takeBytes, byteLength]
  | cons c cs ih =>
    rw [takeBytes]
    split
    · rename_i hn
      rw [isBoundary_cons hn] at h
      rw [byteLength, ih h]
      omega
    · rename_i hn
      rw [isBoundary_cons_lt (by omega)] at h
      simp [byteLength, h]

/-! ### Texts in two parts -/

theorem dropBytes_append (front back : List Char) :
    dropBytes (front ++ back) (byteLength front) = back := by
  induction front with
  | nil =>
    cases back with
    | nil => rfl
    | cons c back =>
      have hc := c.utf8Size_pos
      rw [List.nil_append, byteLength, dropBytes, if_neg (by omega)]
  | cons c front ih =>
    rw [List.cons_append, byteLength, dropBytes, if_pos (by omega), Nat.add_sub_cancel_left, ih]

theorem takeBytes_append (front back : List Char) :
    takeBytes (front ++ back) (byteLength front) = front := by
  have hall := takeBytes_append_dropBytes (front ++ back) (byteLength front)
  rw [dropBytes_append] at hall
  exact List.append_cancel_right hall

theorem eq_nil_of_byteLength {cs : List Char} (h : byteLength cs = 0) : cs = [] := by
  cases cs with
  | nil => rfl
  | cons c cs =>
    have hc := c.utf8Size_pos
    rw [byteLength] at h
    omega

/-! ### Rows -/

@[simp]
theorem rowAt_zero (cs : List Char) : rowAt cs 0 = 0 := by cases cs <;> rfl

theorem rowStart_le (cs : List Char) (row : Nat) : rowStart cs row ≤ byteLength cs := by
  induction cs generalizing row with
  | nil => cases row <;> simp [rowStart]
  | cons c cs ih =>
    cases row with
    | zero => simp [rowStart]
    | succ row =>
      have := ih (if c = '\n' then row else row + 1)
      rw [rowStart, byteLength]
      omega

theorem isBoundary_rowStart (cs : List Char) (row : Nat) :
    isBoundary cs (rowStart cs row) = true := by
  induction cs generalizing row with
  | nil => cases row <;> simp [rowStart]
  | cons c cs ih =>
    cases row with
    | zero => simp [rowStart]
    | succ row =>
      rw [rowStart, isBoundary_cons (Nat.le_add_right ..), Nat.add_sub_cancel_left]
      exact ih _

theorem rowAt_le_newlines (cs : List Char) (n : Nat) : rowAt cs n ≤ newlines cs := by
  induction cs generalizing n with
  | nil => simp [rowAt]
  | cons c cs ih =>
    cases n with
    | zero => simp [rowAt]
    | succ n =>
      have := ih (n + 1 - c.utf8Size)
      rw [rowAt, newlines]
      omega

theorem rowStart_rowAt_le (cs : List Char) (n : Nat) : rowStart cs (rowAt cs n) ≤ n := by
  induction cs generalizing n with
  | nil => simp [rowAt, rowStart]
  | cons c cs ih =>
    cases n with
    | zero => simp [rowAt, rowStart]
    | succ n =>
      have hrest := ih (n + 1 - c.utf8Size)
      rw [rowAt]
      by_cases hc : c = '\n'
      · have hsize : c.utf8Size = 1 := by subst hc; rfl
        rw [if_pos hc, Nat.add_comm, rowStart, if_pos hc]
        omega
      · rw [if_neg hc, Nat.zero_add]
        by_cases hn : n + 1 < c.utf8Size
        · rw [show n + 1 - c.utf8Size = 0 by omega, rowAt_zero]
          simp [rowStart]
        · cases hrow : rowAt cs (n + 1 - c.utf8Size) with
          | zero => simp [rowStart]
          | succ row =>
            rw [hrow] at hrest
            rw [rowStart, if_neg hc]
            omega

theorem le_rowStart_succ {cs : List Char} {n : Nat} (h : n ≤ byteLength cs) :
    n ≤ rowStart cs (rowAt cs n + 1) := by
  induction cs generalizing n with
  | nil =>
    rw [byteLength] at h
    omega
  | cons c cs ih =>
    cases n with
    | zero => omega
    | succ n =>
      rw [byteLength] at h
      have hrest := ih (n := n + 1 - c.utf8Size) (by omega)
      rw [rowAt]
      by_cases hc : c = '\n'
      · rw [if_pos hc, Nat.add_comm 1, rowStart, if_pos hc]
        omega
      · rw [if_neg hc, Nat.zero_add, rowStart, if_neg hc]
        omega

end Utf8

namespace Document

open Utf8

theorem le_length_of_isValid {d : Document} {n : Nat} (h : d.isValid n = true) : n ≤ d.length :=
  le_byteLength_of_isBoundary h

@[simp]
theorem isValid_zero (d : Document) : d.isValid 0 = true := isBoundary_zero _

@[simp]
theorem isValid_length (d : Document) : d.isValid d.length = true := isBoundary_byteLength _

theorem rowRange_rowAt (d : Document) (n : Nat) :
    d.rowRange (d.rowAt n) = ⟨rowStart d.chars (d.rowAt n), rowStart d.chars (d.rowAt n + 1)⟩ := by
  have : rowAt d n < d.rowCount := Nat.lt_succ_of_le (rowAt_le_newlines d.chars n)
  rw [rowRange, if_pos this]

/-- The row of an offset holds it, or ends with the text. -/
theorem le_rowEnd {d : Document} {n : Nat} (h : n ≤ d.length) : n ≤ d.rowEnd n := by
  rw [rowEnd, rowRange_rowAt]
  exact le_rowStart_succ h

theorem rowStart_le {d : Document} (n : Nat) : (d.rowRange (d.rowAt n)).start ≤ n := by
  rw [rowRange_rowAt]
  exact rowStart_rowAt_le d.chars n

@[simp]
theorem isValid_rowEnd (d : Document) (n : Nat) : d.isValid (d.rowEnd n) = true := by
  rw [rowEnd, rowRange_rowAt]
  exact isBoundary_rowStart _ _

@[simp]
theorem isValid_rowStart (d : Document) (n : Nat) :
    d.isValid (d.rowRange (d.rowAt n)).start = true := by
  rw [rowRange_rowAt]
  exact isBoundary_rowStart _ _

/-- The ranges a document takes: ordered, inside the text, and splitting no character. -/
structure Takes (d : Document) (r : ByteRange) : Prop where
  ordered : r.start ≤ r.stop
  start : d.isValid r.start = true
  stop : d.isValid r.stop = true

theorem requireRange_eq_ok {d : Document} {r : ByteRange} :
    d.requireRange r = .ok () ↔ d.Takes r := by
  rw [requireRange]
  constructor
  · intro h
    split at h
    · rename_i hr
      exact ⟨hr.1, hr.2.1, hr.2.2⟩
    · cases h
  · rintro ⟨hr, hstart, hstop⟩
    rw [if_pos ⟨hr, hstart, hstop⟩]

theorem Takes.le_length {d : Document} {r : ByteRange} (h : d.Takes r) : r.stop ≤ d.length :=
  le_length_of_isValid h.stop

/-! ### Ranges cut out of a text -/

section Cut

variable {d : Document} {r : ByteRange} {front middle back : List Char}

theorem isValid_append (h : d.chars = front ++ back) : d.isValid (byteLength front) = true := by
  have hboundary := isBoundary_append_right front back 0
  rw [Nat.add_zero, isBoundary_zero] at hboundary
  rw [isValid, h, hboundary]

/-- A text in three parts, the middle one of which is a range. -/
structure Parts (d : Document) (r : ByteRange) (front middle back : List Char) : Prop where
  chars : d.chars = front ++ middle ++ back
  start : byteLength front = r.start
  stop : byteLength (front ++ middle) = r.stop

theorem Takes.parts (h : d.Takes r) : ∃ front middle back, d.Parts r front middle back := by
  have hordered := h.ordered
  have hsplit := takeBytes_append_dropBytes d.chars r.start
  have hfront := byteLength_takeBytes h.start
  have hboundary : isBoundary (dropBytes d.chars r.start) (r.stop - r.start) = true := by
    rw [← isBoundary_append_right (takeBytes d.chars r.start), hsplit, hfront,
      show r.start + (r.stop - r.start) = r.stop by omega]
    exact h.stop
  refine ⟨takeBytes d.chars r.start, takeBytes (dropBytes d.chars r.start) (r.stop - r.start),
    dropBytes (dropBytes d.chars r.start) (r.stop - r.start), ?_, hfront, ?_⟩
  · rw [List.append_assoc, takeBytes_append_dropBytes, hsplit]
  · rw [byteLength_append, hfront, byteLength_takeBytes hboundary]
    omega

theorem Parts.chars_left (h : d.Parts r front middle back) :
    d.chars = front ++ (middle ++ back) := by
  rw [h.chars, List.append_assoc]

theorem Parts.takes (h : d.Parts r front middle back) : d.Takes r where
  ordered := by
    have hlength := byteLength_append front middle
    rw [h.start, h.stop] at hlength
    omega
  start := h.start ▸ isValid_append h.chars_left
  stop := h.stop ▸ isValid_append h.chars

theorem Parts.length (h : d.Parts r front middle back) :
    d.length = r.stop + byteLength back := by
  rw [Document.length, h.chars, byteLength_append, h.stop]

theorem Parts.isValid_before (h : d.Parts r front middle back) {o : Nat} (ho : o ≤ r.start) :
    d.isValid o = isBoundary front o := by
  rw [isValid, h.chars_left, isBoundary_append_left _ (h.start ▸ ho)]

theorem Parts.isValid_behind (h : d.Parts r front middle back) {o : Nat} (ho : r.stop ≤ o) :
    d.isValid o = isBoundary back (o - r.stop) := by
  rw [isValid, h.chars, show o = byteLength (front ++ middle) + (o - r.stop) by rw [h.stop]; omega,
    isBoundary_append_right, h.stop, Nat.add_sub_cancel_left]

theorem Parts.before (h : d.Parts r front middle back) : takeBytes d.chars r.start = front := by
  rw [h.chars_left, ← h.start, takeBytes_append]

theorem Parts.behind (h : d.Parts r front middle back) : dropBytes d.chars r.stop = back := by
  rw [h.chars, ← h.stop, dropBytes_append]

end Cut

end Document

end LiveHighlight
