import LiveHighlight.Proofs.Text.Bytes
import LiveHighlight.Proofs.Span.Canonical
import LiveHighlight.Text.Edit

/-! What an edit does to offsets, ranges and whatever is kept byte by byte. -/

namespace LiveHighlight

namespace TextEdit

/-- Where a byte of the new text was in the old one; nowhere for the inserted bytes. -/
def origin (e : TextEdit) (i : Nat) : Option Nat :=
  if i < e.start.offset then some i
  else if i < e.newEnd.offset then none
  else some (i - e.newEnd.offset + e.oldEnd.offset)

/-- What was kept for the bytes of the old text, moved along, with `blank` for inserted bytes. -/
def splice {α : Type} (e : TextEdit) (blank : α) (f : Nat → α) (i : Nat) : α :=
  (e.origin i).elim blank f

/-- An edit of a text of `length` bytes whose offsets all fit a machine word. -/
structure Sound (e : TextEdit) (length : Nat) : Prop where
  ordered : e.start.offset ≤ e.oldEnd.offset
  grows : e.start.offset ≤ e.newEnd.offset
  inside : e.oldEnd.offset ≤ length
  fits : length - e.oldEnd.offset + e.newEnd.offset < wordSize

variable {e : TextEdit} {length : Nat}

theorem Sound.shift_eq (h : e.Sound length) {o : Nat} (ho : o ≤ length) :
    e.shift o = o - e.oldEnd.offset + e.newEnd.offset := by
  have := h.fits
  exact Nat.mod_eq_of_lt (by omega)

/-- A byte of the new text comes from before the replaced text, from after it, or is inserted. -/
theorem origin_eq_some {i j : Nat} :
    e.origin i = some j ↔ (i < e.start.offset ∧ i = j) ∨
      (e.start.offset ≤ i ∧ e.newEnd.offset ≤ i ∧ i - e.newEnd.offset + e.oldEnd.offset = j) := by
  unfold origin
  split
  · simp only [Option.some.injEq]
    omega
  · split
    · simp only [reduceCtorEq, false_iff]
      omega
    · simp only [Option.some.injEq]
      omega

theorem origin_eq_none {i : Nat} :
    e.origin i = none ↔ e.start.offset ≤ i ∧ i < e.newEnd.offset := by
  unfold origin
  split
  · simp only [reduceCtorEq, false_iff]
    omega
  · split
    · simp only [true_iff]
      omega
    · simp only [reduceCtorEq, false_iff]
      omega

theorem splice_of_origin {α : Type} {blank : α} {f : Nat → α} {i j : Nat}
    (h : e.origin i = some j) : e.splice blank f i = f j := by
  rw [splice, h]
  rfl

theorem splice_of_inserted {α : Type} {blank : α} {f : Nat → α} {i : Nat}
    (h : e.origin i = none) : e.splice blank f i = blank := by
  rw [splice, h]
  rfl

theorem Sound.origin_lt (h : e.Sound length) {i j : Nat} (hij : e.origin i = some j)
    (hi : i < length - e.oldEnd.offset + e.newEnd.offset) : j < length := by
  have := h.ordered
  have := h.inside
  rcases origin_eq_some.mp hij with ⟨_, _⟩ | ⟨_, _, _⟩ <;> omega

/-! ### Ranges carried along -/

theorem Sound.carryOffset_le (h : e.Sound length) {o : Nat} (ho : o ≤ length) :
    e.carryOffset o ≤ length - e.oldEnd.offset + e.newEnd.offset := by
  have := h.ordered
  have := h.grows
  have := h.inside
  unfold carryOffset
  rw [h.shift_eq ho]
  split
  · omega
  · split <;> omega

theorem start_le_stop_carryRange (r : ByteRange) :
    (e.carryRange r).start ≤ (e.carryRange r).stop :=
  Nat.le_max_right _ _

theorem carryRange_stop (r : ByteRange) :
    (e.carryRange r).stop = max (e.carryOffset r.stop) (e.carryRange r).start := rfl

theorem Sound.carryRange_start (h : e.Sound length) {r : ByteRange} (hr : r.start ≤ length) :
    (e.carryRange r).start =
      if r.start < e.oldEnd.offset ∨ r.start ≤ e.start.offset then min r.start e.start.offset
      else r.start - e.oldEnd.offset + e.newEnd.offset := by
  have := h.ordered
  unfold carryRange carryOffset
  rw [h.shift_eq hr]
  simp only
  split
  · rw [if_pos (by omega)]
  · split
    · rw [if_pos (by omega)]
      omega
    · rw [if_neg (by omega)]

theorem Sound.carryRange_start_le (h : e.Sound length) {r : ByteRange} (hr : r.start ≤ length) :
    (e.carryRange r).start ≤ length - e.oldEnd.offset + e.newEnd.offset := by
  have := h.ordered
  have := h.grows
  have := h.inside
  rw [h.carryRange_start hr]
  split <;> omega

theorem Sound.carryRange_stop_le (h : e.Sound length) {r : ByteRange} (hstart : r.start ≤ length)
    (hstop : r.stop ≤ length) :
    (e.carryRange r).stop ≤ length - e.oldEnd.offset + e.newEnd.offset :=
  Nat.max_le.mpr ⟨h.carryOffset_le hstop, h.carryRange_start_le hstart⟩

theorem Sound.contains_carryRange (h : e.Sound length) {r : ByteRange} {i j : Nat}
    (hij : e.origin i = some j) (hj : r.contains j = true) (hr : r.stop ≤ length) :
    (e.carryRange r).contains i = true := by
  rw [ByteRange.contains_iff] at hj ⊢
  have := h.ordered
  have := h.grows
  refine ⟨?_, Nat.lt_of_lt_of_le ?_ (Nat.le_max_left _ _)⟩
  · rw [h.carryRange_start (by omega)]
    rcases origin_eq_some.mp hij with ⟨_, _⟩ | ⟨_, _, _⟩ <;> split <;> omega
  · unfold carryOffset
    rw [h.shift_eq hr]
    rcases origin_eq_some.mp hij with ⟨_, _⟩ | ⟨_, _, _⟩ <;> split <;> (try split) <;> omega

/-- A range before an edit stays where it is. -/
theorem carryRange_before {r : ByteRange} (hordered : r.start ≤ r.stop)
    (hbefore : r.stop < e.start.offset) : e.carryRange r = r := by
  have hstop : e.carryOffset r.stop = r.stop := if_pos (by omega)
  have hstart : (e.carryRange r).start = r.start := by
    unfold carryRange carryOffset
    simp only
    split
    · exact Nat.min_eq_left (by omega)
    · exact if_pos (by omega)
  obtain ⟨start, stop⟩ := r
  simp only at hstop hstart hordered
  show ByteRange.mk (e.carryRange ⟨start, stop⟩).start
    (max (e.carryOffset stop) (e.carryRange ⟨start, stop⟩).start) = _
  rw [hstart, hstop, Nat.max_eq_left hordered]

/-- A range after an edit moves along with the text. -/
theorem Sound.carryRange_after (h : e.Sound length) {r : ByteRange} (hordered : r.start ≤ r.stop)
    (hafter : e.oldEnd.offset < r.start) (hstop : r.stop ≤ length) :
    e.carryRange r = ⟨r.start - e.oldEnd.offset + e.newEnd.offset,
      r.stop - e.oldEnd.offset + e.newEnd.offset⟩ := by
  have hedit := h.ordered
  have hmoved : ∀ o, r.start ≤ o → o ≤ length →
      e.carryOffset o = o - e.oldEnd.offset + e.newEnd.offset := by
    intro o hfrom hto
    rw [carryOffset, if_neg (by omega), if_neg (by omega), h.shift_eq hto]
  unfold carryRange
  simp only
  rw [if_neg (by omega), hmoved _ (Nat.le_refl _) (by omega), hmoved _ hordered hstop,
    Nat.max_eq_left (by omega)]

theorem contains_newRange {i : Nat} (h : e.origin i = none) : e.newRange.contains i = true := by
  rw [ByteRange.contains_iff]
  exact origin_eq_none.mp h

end TextEdit

/-! ### Edits that are made -/

/-- An edit worked out on one document that leads to another. -/
def Document.Edits (d : Document) (e : TextEdit) (d' : Document) : Prop :=
  ∃ r text, d.planEdit r text = .ok e ∧ d.replace r text = .ok d'

namespace Document

open Utf8

variable {d d' : Document} {e : TextEdit}

theorem planEdit_eq_ok {r : ByteRange} {text : String} (h : d.planEdit r text = .ok e) :
    d.Takes r ∧ e.start.offset = r.start ∧ e.oldEnd.offset = r.stop ∧
      e.newEnd.offset = r.start + byteLength text.toList := by
  unfold planEdit at h
  cases hr : d.requireRange r with
  | error failure => rw [hr] at h; cases h
  | ok =>
    rw [hr] at h
    refine ⟨requireRange_eq_ok.mp hr, ?_⟩
    unfold positionAt at h
    cases hs : d.pointAt r.start with
    | error failure => rw [hs] at h; cases h
    | ok start =>
      cases ht : d.pointAt r.stop with
      | error failure => rw [hs, ht] at h; cases h
      | ok stop =>
        rw [hs, ht] at h
        cases h
        exact ⟨rfl, rfl, rfl⟩

/-- A range that a document takes can be replaced, and the edit can be worked out before. -/
theorem Takes.edits {r : ByteRange} (h : d.Takes r) (text : String) :
    ∃ e d', d.planEdit r text = .ok e ∧ d.replace r text = .ok d' := by
  have hr := requireRange_eq_ok.mpr h
  have hpoint : ∀ o, d.isValid o = true → ∃ p, d.pointAt o = .ok p := by
    intro o ho
    have := requireRange_eq_ok.mpr (⟨Nat.le_refl _, ho, ho⟩ : d.Takes ⟨o, o⟩)
    exact ⟨_, by rw [pointAt, rowAround, this]; rfl⟩
  obtain ⟨start, hstart⟩ := hpoint _ h.start
  obtain ⟨stop, hstop⟩ := hpoint _ h.stop
  exact ⟨_, _, by rw [planEdit, hr, positionAt, hstart, positionAt, hstop]; rfl,
    by rw [replace, hr]; rfl⟩

theorem Parts.replace {r : ByteRange} {front middle back : List Char}
    (h : d.Parts r front middle back) (text : String) :
    d.replace r text = .ok ⟨front ++ text.toList ++ back⟩ := by
  rw [Document.replace, requireRange_eq_ok.mpr h.takes, h.before, h.behind]
  rfl

/-- An edit changes the middle one of three parts of a text. -/
theorem Edits.parts (h : d.Edits e d') : ∃ front middle written back,
    d.Parts e.oldRange front middle back ∧ d'.Parts e.newRange front written back := by
  obtain ⟨r, text, hplan, hreplace⟩ := h
  obtain ⟨hr, hstart, hold, hnew⟩ := planEdit_eq_ok hplan
  obtain ⟨front, middle, back, hparts⟩ := hr.parts
  rw [hparts.replace] at hreplace
  cases hreplace
  have hfront : byteLength front = e.start.offset := hparts.start.trans hstart.symm
  refine ⟨front, middle, text.toList, back, ⟨hparts.chars, hfront, ?_⟩, ⟨rfl, hfront, ?_⟩⟩
  · exact hparts.stop.trans hold.symm
  · rw [byteLength_append, hparts.start]
    exact hnew.symm

theorem Edits.length (h : d.Edits e d') :
    e.start.offset ≤ e.oldEnd.offset ∧ e.start.offset ≤ e.newEnd.offset ∧
      e.oldEnd.offset ≤ d.length ∧
      d'.length = d.length - e.oldEnd.offset + e.newEnd.offset := by
  obtain ⟨front, middle, written, back, hold, hnew⟩ := h.parts
  have hbefore : d.length = e.oldEnd.offset + byteLength back := hold.length
  have hafter : d'.length = e.newEnd.offset + byteLength back := hnew.length
  exact ⟨hold.takes.ordered, hnew.takes.ordered, by omega, by omega⟩

theorem Edits.sound (h : d.Edits e d') (hfits : d'.length < wordSize) : e.Sound d.length := by
  obtain ⟨hordered, hgrows, hinside, hlength⟩ := h.length
  exact ⟨hordered, hgrows, hinside, by omega⟩

theorem Edits.isValid_before (h : d.Edits e d') {o : Nat} (ho : o ≤ e.start.offset) :
    d'.isValid o = d.isValid o := by
  obtain ⟨front, middle, written, back, hold, hnew⟩ := h.parts
  rw [hnew.isValid_before ho, hold.isValid_before ho]

theorem Edits.isValid_after (h : d.Edits e d') {o : Nat} (ho : e.oldEnd.offset ≤ o) :
    d'.isValid (o - e.oldEnd.offset + e.newEnd.offset) = d.isValid o := by
  obtain ⟨front, middle, written, back, hold, hnew⟩ := h.parts
  have hbefore : d.isValid o = isBoundary back (o - e.oldEnd.offset) := hold.isValid_behind ho
  have hafter : d'.isValid (o - e.oldEnd.offset + e.newEnd.offset) =
      isBoundary back (o - e.oldEnd.offset + e.newEnd.offset - e.newEnd.offset) :=
    hnew.isValid_behind (Nat.le_add_left ..)
  rw [hafter, hbefore, Nat.add_sub_cancel]

theorem Edits.takes_newRange (h : d.Edits e d') : d'.Takes e.newRange := by
  obtain ⟨front, middle, written, back, -, hnew⟩ := h.parts
  exact hnew.takes

theorem Edits.isValid_newEnd (h : d.Edits e d') : d'.isValid e.newEnd.offset = true :=
  h.takes_newRange.stop

theorem Edits.isValid_start (h : d.Edits e d') : d'.isValid e.start.offset = true :=
  h.takes_newRange.start

/-- A place between two characters is carried to one. -/
theorem Edits.isValid_carryOffset (h : d.Edits e d') (hfits : d'.length < wordSize) {o : Nat}
    (ho : d.isValid o = true) : d'.isValid (e.carryOffset o) = true := by
  rw [TextEdit.carryOffset]
  split
  · rename_i hbefore
    rw [h.isValid_before hbefore]
    exact ho
  · split
    · exact h.isValid_newEnd
    · rw [(h.sound hfits).shift_eq (le_length_of_isValid ho), h.isValid_after (by omega)]
      exact ho

theorem Edits.takes_carryRange (h : d.Edits e d') (hfits : d'.length < wordSize) {r : ByteRange}
    (hr : d.Takes r) : d'.Takes (e.carryRange r) := by
  have hstart : d'.isValid (e.carryRange r).start = true := by
    rw [TextEdit.carryRange]
    simp only
    split
    · rcases Nat.le_total r.start e.start.offset with hle | hle
      · rw [Nat.min_eq_left hle, h.isValid_before hle]
        exact hr.start
      · rw [Nat.min_eq_right hle]
        exact h.isValid_start
    · exact h.isValid_carryOffset hfits hr.start
  refine ⟨TextEdit.start_le_stop_carryRange r, hstart, ?_⟩
  rcases Nat.le_total (e.carryOffset r.stop) (e.carryRange r).start with hmax | hmax
  · rw [TextEdit.carryRange_stop, Nat.max_eq_right hmax]
    exact hstart
  · rw [TextEdit.carryRange_stop, Nat.max_eq_left hmax]
    exact h.isValid_carryOffset hfits hr.stop

/-! ### Edits in a row -/

/-- Edits made one after the other, each leading to a text that fits a machine word. -/
inductive Trail : Document → List TextEdit → Document → Prop
  | start (d : Document) : Trail d [] d
  | edit {d₀ d d' : Document} {es : List TextEdit} {e : TextEdit} :
      Trail d₀ es d → d.Edits e d' → d'.length < wordSize → Trail d₀ (es ++ [e]) d'

theorem Trail.eq_of_nil {d₀ d : Document} (h : Trail d₀ [] d) : d₀ = d := by
  generalize hes : ([] : List TextEdit) = es at h
  cases h with
  | start => rfl
  | edit => simp at hes

end Document

namespace TextEdit

/-- What was kept for the bytes of a text, moved along edits that were made in a row. -/
def spliceAll {α : Type} (es : List TextEdit) (blank : α) (f : Nat → α) : Nat → α :=
  es.foldl (fun f e => e.splice blank f) f

@[simp]
theorem spliceAll_nil {α : Type} (blank : α) (f : Nat → α) : spliceAll [] blank f = f := rfl

theorem spliceAll_concat {α : Type} (es : List TextEdit) (e : TextEdit) (blank : α)
    (f : Nat → α) : spliceAll (es ++ [e]) blank f = e.splice blank (spliceAll es blank f) := by
  simp [spliceAll]

/-- The ranges that edits in a row have inserted, each moved along the later ones. -/
def insertedRanges (es : List TextEdit) : List ByteRange :=
  es.foldl (fun rs e => rs.map e.carryRange ++ [e.newRange]) []

@[simp]
theorem insertedRanges_nil : insertedRanges [] = [] := rfl

theorem insertedRanges_concat (es : List TextEdit) (e : TextEdit) :
    insertedRanges (es ++ [e]) = (insertedRanges es).map e.carryRange ++ [e.newRange] := by
  simp [insertedRanges]

end TextEdit

end LiveHighlight
