import Mathlib.Data.List.Induction
import LiveHighlight.Proofs.Text.Edits

/-! Ranges carried along edits that are made in a row. Each byte of the last text was in the first
one or was inserted on the way, and a carried range loses none that it should hold: the bytes of the
range that are still there, and what was inserted into it or in place of some of it. -/

namespace LiveHighlight

namespace Utf8

/-- The bytes of a text. -/
def encode (cs : List Char) : List UInt8 := cs.flatMap String.utf8EncodeChar

theorem encode_append (front back : List Char) :
    encode (front ++ back) = encode front ++ encode back := List.flatMap_append

@[simp]
theorem length_encode (cs : List Char) : (encode cs).length = byteLength cs := by
  induction cs with
  | nil => rfl
  | cons c cs ih =>
    rw [encode] at ih ⊢
    rw [List.flatMap_cons, List.length_append, String.length_utf8EncodeChar, ih, byteLength]

end Utf8

open Utf8

namespace Document

variable {d d₁ d₂ d' : Document} {e : TextEdit} {es fs : List TextEdit}

/-! ### Bytes that stay -/

section Cut

variable {r : ByteRange} {front middle back : List Char}

theorem Parts.byte_before (h : d.Parts r front middle back) {i : Nat} (hi : i < r.start) :
    (encode d.chars)[i]? = (encode front)[i]? := by
  rw [h.chars_left, encode_append, List.getElem?_append_left]
  rw [length_encode, h.start]
  exact hi

theorem Parts.byte_behind (h : d.Parts r front middle back) {i : Nat} (hi : r.stop ≤ i) :
    (encode d.chars)[i]? = (encode back)[i - r.stop]? := by
  rw [h.chars, encode_append, List.getElem?_append_right] <;> rw [length_encode, h.stop]
  exact hi

end Cut

theorem Edits.byte_of_origin (h : d.Edits e d') {i j : Nat} (hij : e.origin i = some j) :
    (encode d'.chars)[i]? = (encode d.chars)[j]? := by
  obtain ⟨front, middle, written, back, hold, hnew⟩ := h.parts
  rcases TextEdit.origin_eq_some.mp hij with ⟨hi, rfl⟩ | ⟨-, hi, rfl⟩
  · rw [hold.byte_before hi, hnew.byte_before hi]
  · have hbehind := hold.byte_behind (Nat.le_add_left e.oldEnd.offset (i - e.newEnd.offset))
    rw [hbehind, hnew.byte_behind hi]
    show (encode back)[i - e.newEnd.offset]? =
      (encode back)[i - e.newEnd.offset + e.oldEnd.offset - e.oldEnd.offset]?
    rw [Nat.add_sub_cancel]

/-! ### Offsets carried along -/

/-- Carried offsets keep their order, as long as they fit a machine word. -/
theorem Edits.carryOffset_mono (h : d.Edits e d') {o o' : Nat} (hle : o ≤ o')
    (hfits : o' - e.oldEnd.offset + e.newEnd.offset < wordSize) :
    e.carryOffset o ≤ e.carryOffset o' := by
  obtain ⟨hordered, hgrows, -, -⟩ := h.length
  have hshift : ∀ q, q ≤ o' → e.shift q = q - e.oldEnd.offset + e.newEnd.offset :=
    fun q hq => Nat.mod_eq_of_lt (by omega)
  unfold TextEdit.carryOffset
  rw [hshift o hle, hshift o' (Nat.le_refl _)]
  split <;> split <;> (try split) <;> (try split) <;> omega

/-! ### Trails in parts -/

/-- The last edit of a trail is made on the text that those before it lead to. -/
theorem Trail.of_concat (h : Trail d (es ++ [e]) d') :
    ∃ d₁, Trail d es d₁ ∧ d₁.Edits e d' ∧ d'.length < wordSize := by
  generalize hall : es ++ [e] = gs at h
  cases h with
  | start => simp at hall
  | edit htrail hedit hfits =>
    obtain ⟨rfl, hlast⟩ := List.append_inj' hall rfl
    cases hlast
    exact ⟨_, htrail, hedit, hfits⟩

theorem Trail.split (h : Trail d (es ++ fs) d') : ∃ d₁, Trail d es d₁ ∧ Trail d₁ fs d' := by
  induction fs using List.reverseRecOn generalizing d' with
  | nil =>
    rw [List.append_nil] at h
    exact ⟨d', h, .start d'⟩
  | append_singleton fs f ih =>
    rw [← List.append_assoc] at h
    obtain ⟨d₂, hbefore, hedit, hfits⟩ := h.of_concat
    obtain ⟨d₁, hfront, hback⟩ := ih hbefore
    exact ⟨d₁, hfront, .edit hback hedit hfits⟩

end Document

namespace TextEdit

variable {e : TextEdit} {es : List TextEdit} {r : ByteRange}

/-- A range carried along edits made in a row. -/
def carryAll (es : List TextEdit) (r : ByteRange) : ByteRange :=
  es.foldl (fun r e => e.carryRange r) r

theorem carryAll_concat (es : List TextEdit) (e : TextEdit) (r : ByteRange) :
    carryAll (es ++ [e]) r = e.carryRange (carryAll es r) := by
  simp [carryAll]

theorem carryAll_cut (before : List TextEdit) (e : TextEdit) (after : List TextEdit)
    (r : ByteRange) :
    carryAll (before ++ e :: after) r = carryAll after (e.carryRange (carryAll before r)) := by
  simp [carryAll]

/-- Where a byte was before edits made in a row; nowhere if it was inserted on the way. -/
def originAll (es : List TextEdit) : Nat → Option Nat := spliceAll es none some

theorem originAll_concat (es : List TextEdit) (e : TextEdit) (i : Nat) :
    originAll (es ++ [e]) i = (e.origin i).bind (originAll es) := by
  rw [originAll, spliceAll_concat, splice]
  cases e.origin i <;> rfl

theorem originAll_concat_eq_some {i j : Nat} :
    originAll (es ++ [e]) i = some j ↔ ∃ k, e.origin i = some k ∧ originAll es k = some j := by
  rw [originAll_concat, Option.bind_eq_some_iff]

/-- Whether an edit changes something in a range: it replaces a byte of the range, or begins
strictly inside it. -/
def Touches (e : TextEdit) (r : ByteRange) : Prop :=
  (∃ i, e.oldRange.contains i = true ∧ r.contains i = true) ∨
    r.start < e.start.offset ∧ e.start.offset < r.stop

/-- An edit that changes something in a range inserts into the carried range. -/
theorem Sound.newRange_within {length : Nat} (h : e.Sound length) (htouches : e.Touches r)
    (hstop : r.stop ≤ length) :
    (e.carryRange r).start ≤ e.start.offset ∧ e.newEnd.offset ≤ (e.carryRange r).stop := by
  have hordered := h.ordered
  have hinside := h.inside
  have hmeets : r.start < e.oldEnd.offset ∧ e.start.offset < r.stop ∨
      r.start < e.start.offset ∧ e.start.offset < r.stop := by
    rcases htouches with ⟨i, hold, hr⟩ | hwithin
    · rw [ByteRange.contains_iff] at hold hr
      simp only [oldRange] at hold
      omega
    · exact .inr hwithin
  have hstart : r.start < e.oldEnd.offset := by omega
  constructor
  · rw [h.carryRange_start (by omega), if_pos (.inl hstart)]
    exact Nat.min_le_right _ _
  · rw [carryRange_stop, carryOffset, h.shift_eq hstop]
    split
    · omega
    · split <;> omega

end TextEdit

namespace Document

variable {d d₁ d₂ d' : Document} {e : TextEdit} {es : List TextEdit} {r : ByteRange}

/-! ### Ranges carried along a trail -/

theorem Trail.carryAll_ordered (h : Trail d es d') (hordered : r.start ≤ r.stop)
    (hstop : r.stop ≤ d.length) :
    (TextEdit.carryAll es r).start ≤ (TextEdit.carryAll es r).stop ∧
      (TextEdit.carryAll es r).stop ≤ d'.length := by
  induction h with
  | start => exact ⟨hordered, hstop⟩
  | edit htrail hedit hfits ih =>
    obtain ⟨hbefore, hinside⟩ := ih
    obtain ⟨-, -, -, hlength⟩ := hedit.length
    rw [TextEdit.carryAll_concat, hlength]
    exact ⟨TextEdit.start_le_stop_carryRange _,
      (hedit.sound hfits).carryRange_stop_le (by omega) hinside⟩

theorem Trail.contains_carryAll (h : Trail d es d') (hordered : r.start ≤ r.stop)
    (hstop : r.stop ≤ d.length) {i j : Nat} (hij : TextEdit.originAll es i = some j)
    (hj : r.contains j = true) : (TextEdit.carryAll es r).contains i = true := by
  induction h generalizing i with
  | start =>
    cases hij
    exact hj
  | edit htrail hedit hfits ih =>
    obtain ⟨k, hik, hkj⟩ := TextEdit.originAll_concat_eq_some.mp hij
    rw [TextEdit.carryAll_concat]
    exact (hedit.sound hfits).contains_carryRange hik (ih hkj)
      (htrail.carryAll_ordered hordered hstop).2

theorem Trail.byte_of_originAll (h : Trail d es d') {i j : Nat}
    (hij : TextEdit.originAll es i = some j) :
    (encode d'.chars)[i]? = (encode d.chars)[j]? := by
  induction h generalizing i with
  | start =>
    cases hij
    rfl
  | edit htrail hedit hfits ih =>
    obtain ⟨k, hik, hkj⟩ := TextEdit.originAll_concat_eq_some.mp hij
    rw [hedit.byte_of_origin hik, ih hkj]

/-- A byte that an edit inserted into the range, or for some of it, and that is still there is in
the carried range. -/
theorem Trail.contains_inserted {before after : List TextEdit}
    (h : Trail d (before ++ e :: after) d') (hordered : r.start ≤ r.stop)
    (hstop : r.stop ≤ d.length) (htouches : e.Touches (TextEdit.carryAll before r)) {i k : Nat}
    (hik : TextEdit.originAll after i = some k) (hk : e.newRange.contains k = true) :
    (TextEdit.carryAll (before ++ e :: after) r).contains i = true := by
  rw [List.append_cons] at h
  obtain ⟨d₂, hbefore, hafter⟩ := h.split
  have hwhole := hbefore.carryAll_ordered hordered hstop
  obtain ⟨d₁, hfront, hedit, hfits⟩ := hbefore.of_concat
  obtain ⟨hfrom, hto⟩ := (hedit.sound hfits).newRange_within htouches
    (hfront.carryAll_ordered hordered hstop).2
  rw [TextEdit.carryAll_concat] at hwhole
  rw [TextEdit.carryAll_cut]
  -- From here on it is a byte of the range that stays.
  refine hafter.contains_carryAll hwhole.1 hwhole.2 hik ?_
  rw [ByteRange.contains_iff] at hk ⊢
  simp only [TextEdit.newRange] at hk
  omega

/-- A range carried along edits made in a row stays ordered and inside the text. It holds every byte
of the range that is still there, and every byte still there that an edit inserted when it replaced
some of the range or began strictly inside it. An edit carries offsets in order, as long as they fit
a machine word, and places between characters to such places. -/
theorem carried_ranges_keep {d d' : Document} {es : List TextEdit} (htrail : Trail d es d') :
    (∀ r : ByteRange, r.start ≤ r.stop → r.stop ≤ d.length →
      (TextEdit.carryAll es r).start ≤ (TextEdit.carryAll es r).stop ∧
      (TextEdit.carryAll es r).stop ≤ d'.length ∧
      (∀ i j, TextEdit.originAll es i = some j → r.contains j = true →
        (TextEdit.carryAll es r).contains i = true) ∧
      ∀ before e after, es = before ++ e :: after → e.Touches (TextEdit.carryAll before r) →
        ∀ i k, TextEdit.originAll after i = some k → e.newRange.contains k = true →
          (TextEdit.carryAll es r).contains i = true) ∧
    (∀ i j, TextEdit.originAll es i = some j →
      (encode d'.chars)[i]? = (encode d.chars)[j]?) ∧
    ∀ (d₁ : Document) (e : TextEdit) (d₂ : Document), d₁.Edits e d₂ → d₂.length < wordSize →
      (∀ o o', o ≤ o' → o' - e.oldEnd.offset + e.newEnd.offset < wordSize →
        e.carryOffset o ≤ e.carryOffset o') ∧
      ∀ o, d₁.isValid o = true → d₂.isValid (e.carryOffset o) = true := by
  refine ⟨fun r hordered hstop => ?_, fun i j => htrail.byte_of_originAll,
    fun d₁ e d₂ hedit hfits => ⟨fun o o' => hedit.carryOffset_mono,
      fun o => hedit.isValid_carryOffset hfits⟩⟩
  obtain ⟨hwhole, hinside⟩ := htrail.carryAll_ordered hordered hstop
  refine ⟨hwhole, hinside, fun i j => htrail.contains_carryAll hordered hstop, ?_⟩
  rintro before e after rfl htouches i k
  exact htrail.contains_inserted hordered hstop htouches

/-- The start of a range is replaced, then something is inserted inside it. The range holds both and
what is left of it. -/
theorem carried_ranges_keep_overlap :
    let d := ofString "abcdef"
    let e₁ : TextEdit := ⟨⟨1, ⟨0, 1⟩⟩, ⟨3, ⟨0, 3⟩⟩, ⟨2, ⟨1, 0⟩⟩, "\n"⟩
    let e₂ : TextEdit := ⟨⟨3, ⟨1, 1⟩⟩, ⟨3, ⟨1, 1⟩⟩, ⟨5, ⟨1, 3⟩⟩, "é"⟩
    let r : ByteRange := ⟨2, 5⟩
    Trail d [e₁, e₂] (ofString "a\ndéef") ∧ TextEdit.carryAll [e₁, e₂] r = ⟨1, 6⟩ ∧
      e₁.Touches r ∧ e₂.Touches (e₁.carryRange r) ∧
      (TextEdit.carryAll [e₁, e₂] r).contains 5 = true ∧
      (TextEdit.carryAll [e₁, e₂] r).contains 1 = true ∧
      (TextEdit.carryAll [e₁, e₂] r).contains 4 = true ∧
      e₁.carryOffset 2 ≤ e₁.carryOffset 5 ∧
      (ofString "a\ndef").isValid (e₁.carryOffset 2) = true := by
  intro d e₁ e₂ r
  have hfirst : d.Edits e₁ (ofString "a\ndef") := ⟨⟨1, 3⟩, "\n", rfl, rfl⟩
  have hsecond : (ofString "a\ndef").Edits e₂ (ofString "a\ndéef") := ⟨⟨3, 3⟩, "é", rfl, rfl⟩
  have htrail : Trail d [e₁, e₂] (ofString "a\ndéef") :=
    .edit (.edit (.start d) hfirst (by decide)) hsecond (by decide)
  have htouches₁ : e₁.Touches r := .inl ⟨2, by decide, by decide⟩
  have htouches₂ : e₂.Touches (e₁.carryRange r) := .inr ⟨by decide, by decide⟩
  obtain ⟨hranges, -, hoffsets⟩ := carried_ranges_keep htrail
  obtain ⟨-, -, hstays, hinserted⟩ := hranges r (by decide) (by decide)
  obtain ⟨hmono, hvalid⟩ := hoffsets d e₁ (ofString "a\ndef") hfirst (by decide)
  refine ⟨htrail, by decide, htouches₁, htouches₂, hstays 5 4 rfl (by decide),
    hinserted [] e₁ [e₂] rfl htouches₁ 1 1 rfl (by decide),
    hinserted [e₁] e₂ [] rfl htouches₂ 4 4 rfl (by decide),
    hmono 2 5 (by decide) (by decide), ?_⟩
  exact hvalid 2 (by decide)

end Document

/-! ### What was inserted on the way -/

namespace TextEdit

theorem carryAll_mem_insertedRanges (before : List TextEdit) (e : TextEdit)
    (after : List TextEdit) :
    carryAll after e.newRange ∈ insertedRanges (before ++ e :: after) := by
  induction after using List.reverseRecOn with
  | nil =>
    rw [insertedRanges_concat]
    exact List.mem_append_right _ (List.mem_singleton.mpr rfl)
  | append_singleton after f ih =>
    rw [← List.cons_append, ← List.append_assoc, insertedRanges_concat, carryAll_concat]
    exact List.mem_append_left _ (List.mem_map_of_mem ih)

end TextEdit

namespace Document

variable {d d' : Document} {es : List TextEdit}

theorem Trail.takes_insertedRanges (h : Trail d es d') :
    ∀ r ∈ TextEdit.insertedRanges es, d'.Takes r := by
  induction h with
  | start => exact fun r hr => (List.not_mem_nil hr).elim
  | edit htrail hedit hfits ih =>
    intro r hr
    rw [TextEdit.insertedRanges_concat, List.mem_append, List.mem_map, List.mem_singleton] at hr
    rcases hr with ⟨old, hold, rfl⟩ | rfl
    · exact hedit.takes_carryRange hfits (ih old hold)
    · exact hedit.takes_newRange

/-- A byte that was not in the first text is in one of the inserted ranges. -/
theorem Trail.exists_insertedRange (h : Trail d es d') {i : Nat}
    (hi : TextEdit.originAll es i = none) :
    ∃ r ∈ TextEdit.insertedRanges es, r.contains i = true := by
  induction h generalizing i with
  | start => cases hi
  | @edit d₁ d₂ es e htrail hedit hfits ih =>
    rw [TextEdit.insertedRanges_concat]
    cases horigin : e.origin i with
    | none =>
      exact ⟨e.newRange, List.mem_append_right _ (List.mem_singleton.mpr rfl),
        TextEdit.contains_newRange horigin⟩
    | some k =>
      rw [TextEdit.originAll_concat, horigin, Option.bind_some] at hi
      obtain ⟨r, hr, hk⟩ := ih hi
      exact ⟨e.carryRange r, List.mem_append_left _ (List.mem_map_of_mem hr),
        (hedit.sound hfits).contains_carryRange horigin hk
          (htrail.takes_insertedRanges r hr).le_length⟩

end Document

end LiveHighlight
