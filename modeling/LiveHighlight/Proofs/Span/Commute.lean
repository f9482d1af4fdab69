import LiveHighlight.Proofs.Span.Rewrite
import LiveHighlight.Proofs.Text.Positions

/-! Two edits of one text with something between them. Either can be made first, if the other is
made where its range has been carried to: the text that they lead to is the same, and so are the
spans carried across both. -/

namespace LiveHighlight

open Utf8

namespace Document

variable {d : Document} {r₁ r₂ : ByteRange}

/-- Of two ranges of a text, the second after the first, each is the middle one of three parts. -/
theorem Takes.parts_apart (h₁ : d.Takes r₁) (h₂ : d.Takes r₂) (hapart : r₁.stop ≤ r₂.start) :
    ∃ front first between second back,
      d.Parts r₁ front first (between ++ second ++ back) ∧
        d.Parts r₂ (front ++ first ++ between) second back := by
  obtain ⟨front, first, tail, hfirst⟩ := h₁.parts
  obtain ⟨head, second, back, hsecond⟩ := h₂.parts
  rcases List.append_eq_append_iff.mp (hfirst.chars.symm.trans hsecond.chars_left) with
    ⟨between, rfl, rfl⟩ | ⟨between, hhead, htail⟩
  · refine ⟨front, first, between, second, back, ?_, hsecond⟩
    rw [List.append_assoc]
    exact hfirst
  · -- The first range reaches up to the second one at most, so nothing is left over between them.
    have hlength := hfirst.stop
    rw [hhead, byteLength_append, hsecond.start] at hlength
    obtain rfl : between = [] := eq_nil_of_byteLength (by omega)
    rw [List.append_nil] at hhead
    subst hhead
    refine ⟨front, first, [], second, back, ?_, ?_⟩
    · rw [List.nil_append, htail, List.nil_append]
      exact hfirst
    · rw [List.append_nil]
      exact hsecond

section Apart

variable {front first between second back : List Char}

/-- Where something before a range gives way to a text, all around the range stays as it is, only
further on. -/
theorem Parts.moved (h₁ : d.Parts r₁ front first (between ++ second ++ back))
    (h₂ : d.Parts r₂ (front ++ first ++ between) second back) (text : List Char) :
    (⟨front ++ text ++ (between ++ second ++ back)⟩ : Document).Parts
      ⟨r₂.start - r₁.stop + (r₁.start + byteLength text),
        r₂.stop - r₁.stop + (r₁.start + byteLength text)⟩
      (front ++ text ++ between) second back := by
  have hfront := h₁.start
  have hfirst := h₁.stop
  have hbetween := h₂.start
  have hsecond := h₂.stop
  simp only [byteLength_append] at hfront hfirst hbetween hsecond
  refine ⟨by simp only [List.append_assoc], ?_, ?_⟩
  · simp only [byteLength_append]
    omega
  · simp only [byteLength_append]
    omega

theorem Parts.kept (h₁ : d.Parts r₁ front first (between ++ second ++ back)) (text : List Char) :
    (⟨front ++ first ++ between ++ text ++ back⟩ : Document).Parts r₁ front first
      (between ++ text ++ back) :=
  ⟨by simp only [List.append_assoc], h₁.start, h₁.stop⟩

end Apart

end Document

namespace TextEdit

/-- An edit as it is to be made after another one before it, by its offsets. -/
structure Follows (e' e e₁ : TextEdit) : Prop where
  start : e'.start.offset = e.start.offset - e₁.oldEnd.offset + e₁.newEnd.offset
  oldEnd : e'.oldEnd.offset = e.oldEnd.offset - e₁.oldEnd.offset + e₁.newEnd.offset
  newEnd : e'.newEnd.offset = e.newEnd.offset - e₁.oldEnd.offset + e₁.newEnd.offset

variable {e₁ e₂ e₂' : TextEdit}

/-- What is kept for the bytes of a text is moved along two edits alike, whichever is made first. -/
theorem Follows.splice_comm {α : Type} (h : e₂'.Follows e₂ e₁)
    (hordered₁ : e₁.start.offset ≤ e₁.oldEnd.offset) (hgrows₁ : e₁.start.offset ≤ e₁.newEnd.offset)
    (hordered₂ : e₂.start.offset ≤ e₂.oldEnd.offset) (hgrows₂ : e₂.start.offset ≤ e₂.newEnd.offset)
    (hapart : e₁.oldEnd.offset < e₂.start.offset) (blank : α) (f : Nat → α) :
    e₂'.splice blank (e₁.splice blank f) = e₁.splice blank (e₂.splice blank f) := by
  obtain ⟨hstart, hold, hnew⟩ := h
  funext i
  -- In the last text a byte is before both edits, inserted by the first, between them, inserted by
  -- the second, or behind both.
  by_cases hbefore : i < e₁.start.offset
  · have hi₁ : e₁.origin i = some i := origin_eq_some.mpr (.inl ⟨hbefore, rfl⟩)
    have hi₂ : e₂.origin i = some i := origin_eq_some.mpr (.inl ⟨by omega, rfl⟩)
    have hi : e₂'.origin i = some i := origin_eq_some.mpr (.inl ⟨by omega, rfl⟩)
    rw [splice_of_origin hi, splice_of_origin hi₁, splice_of_origin hi₁, splice_of_origin hi₂]
  by_cases hinserted₁ : i < e₁.newEnd.offset
  · have hi₁ : e₁.origin i = none := origin_eq_none.mpr ⟨by omega, hinserted₁⟩
    have hi : e₂'.origin i = some i := origin_eq_some.mpr (.inl ⟨by omega, rfl⟩)
    rw [splice_of_origin hi, splice_of_inserted hi₁, splice_of_inserted hi₁]
  obtain ⟨k, hk⟩ : ∃ k, i - e₁.newEnd.offset + e₁.oldEnd.offset = k := ⟨_, rfl⟩
  have hi₁ : e₁.origin i = some k := origin_eq_some.mpr (.inr ⟨by omega, by omega, hk⟩)
  rw [splice_of_origin hi₁]
  by_cases hbetween : i < e₂'.start.offset
  · have hi : e₂'.origin i = some i := origin_eq_some.mpr (.inl ⟨hbetween, rfl⟩)
    have hk₂ : e₂.origin k = some k := origin_eq_some.mpr (.inl ⟨by omega, rfl⟩)
    rw [splice_of_origin hi, splice_of_origin hi₁, splice_of_origin hk₂]
  by_cases hinserted₂ : i < e₂'.newEnd.offset
  · have hi : e₂'.origin i = none := origin_eq_none.mpr ⟨by omega, hinserted₂⟩
    have hk₂ : e₂.origin k = none := origin_eq_none.mpr ⟨by omega, by omega⟩
    rw [splice_of_inserted hi, splice_of_inserted hk₂]
  · obtain ⟨m, hm⟩ : ∃ m, i - e₂'.newEnd.offset + e₂'.oldEnd.offset = m := ⟨_, rfl⟩
    obtain ⟨j, hj⟩ : ∃ j, k - e₂.newEnd.offset + e₂.oldEnd.offset = j := ⟨_, rfl⟩
    have hi : e₂'.origin i = some m := origin_eq_some.mpr (.inr ⟨by omega, by omega, hm⟩)
    have hm₁ : e₁.origin m = some j := origin_eq_some.mpr (.inr ⟨by omega, by omega, by omega⟩)
    have hk₂ : e₂.origin k = some j := origin_eq_some.mpr (.inr ⟨by omega, by omega, hj⟩)
    rw [splice_of_origin hi, splice_of_origin hm₁, splice_of_origin hk₂]

end TextEdit

namespace Document

variable {d d₁ d₂ : Document} {r₁ r₂ : ByteRange} {text₁ text₂ : String} {e₁ e₂ : TextEdit}

/-- The second of two edits with something between them, made after the first one, leads to the text
that the first one leads to when it is made last. -/
theorem exists_edits_apart (hplan₁ : d.planEdit r₁ text₁ = .ok e₁)
    (hreplace₁ : d.replace r₁ text₁ = .ok d₁) (hplan₂ : d.planEdit r₂ text₂ = .ok e₂)
    (hreplace₂ : d.replace r₂ text₂ = .ok d₂) (hapart : r₁.stop < r₂.start)
    (hfits₁ : d₁.length < wordSize) :
    ∃ e₂' d', d₁.planEdit (e₁.carryRange r₂) text₂ = .ok e₂' ∧
      d₁.replace (e₁.carryRange r₂) text₂ = .ok d' ∧
      d₂.planEdit r₁ text₁ = .ok e₁ ∧ d₂.replace r₁ text₁ = .ok d' ∧ e₂'.Follows e₂ e₁ := by
  have hsound₁ := Edits.sound ⟨r₁, text₁, hplan₁, hreplace₁⟩ hfits₁
  obtain ⟨htakes₁, -, hold₁, hnew₁⟩ := planEdit_eq_ok hplan₁
  obtain ⟨htakes₂, hstart₂, hold₂, hnew₂⟩ := planEdit_eq_ok hplan₂
  have hordered := htakes₂.ordered
  have hcarry := hsound₁.carryRange_after hordered (by omega) htakes₂.le_length
  rw [hold₁, hnew₁] at hcarry
  obtain ⟨front, first, between, second, back, hparts₁, hparts₂⟩ :=
    htakes₁.parts_apart htakes₂ (Nat.le_of_lt hapart)
  rw [hparts₁.replace] at hreplace₁
  rw [hparts₂.replace] at hreplace₂
  cases hreplace₁
  cases hreplace₂
  have hlater := hparts₁.moved hparts₂ text₁.toList
  rw [← hcarry] at hlater
  have hearlier := hparts₁.kept text₂.toList
  have hplan₂' := hlater.planEdit text₂
  have hplan₁' := (hearlier.planEdit text₁).trans ((hparts₁.planEdit text₁).symm.trans hplan₁)
  refine ⟨_, _, hplan₂', hlater.replace text₂, hplan₁', ?_, ?_⟩
  · rw [hearlier.replace]
    simp only [List.append_assoc]
  · obtain ⟨-, hstart, hold, hnew⟩ := planEdit_eq_ok hplan₂'
    have hfrom := congrArg ByteRange.start hcarry
    have hto := congrArg ByteRange.stop hcarry
    simp only at hfrom hto
    exact ⟨by omega, by omega, by omega⟩

end Document

namespace Spans

theorem Canonical.carry_carry {d d₁ d' : Document} {e₁ e₂ : TextEdit} {spans : List Span}
    (h : Canonical spans) (hin : Within ⟨0, d.length⟩ spans) (hedit₁ : d.Edits e₁ d₁)
    (hfits₁ : d₁.length < wordSize) (hedit₂ : d₁.Edits e₂ d') (hfits : d'.length < wordSize) :
    Canonical (Spans.carry (Spans.carry spans e₁) e₂) ∧
      captureAt (Spans.carry (Spans.carry spans e₁) e₂) =
        e₂.splice none (e₁.splice none (captureAt spans)) := by
  have hsound₁ := hedit₁.sound hfits₁
  have hsound₂ := hedit₂.sound hfits
  obtain ⟨-, -, -, hlength⟩ := hedit₁.length
  have hcarried := h.carry hsound₁ hin
  have hinside : Within ⟨0, d₁.length⟩ (Spans.carry spans e₁) :=
    hlength ▸ h.within_carry hsound₁ hin
  refine ⟨hcarried.carry hsound₂ hinside, funext fun i => ?_⟩
  rw [hcarried.captureAt_carry hsound₂ hinside, funext (h.captureAt_carry hsound₁ hin)]

theorem Canonical.carry_comm {d d₁ d₂ d' : Document} {e₁ e₂ e₂' : TextEdit} {spans : List Span}
    (h : Canonical spans) (hin : Within ⟨0, d.length⟩ spans) (hedit₁ : d.Edits e₁ d₁)
    (hedit₂ : d.Edits e₂ d₂) (hlast₂ : d₁.Edits e₂' d') (hlast₁ : d₂.Edits e₁ d')
    (hfits₁ : d₁.length < wordSize) (hfits₂ : d₂.length < wordSize) (hfits : d'.length < wordSize)
    (hapart : e₁.oldEnd.offset < e₂.start.offset) (hfollows : e₂'.Follows e₂ e₁) :
    Spans.carry (Spans.carry spans e₁) e₂' = Spans.carry (Spans.carry spans e₂) e₁ := by
  obtain ⟨hcanonical, hat⟩ := h.carry_carry hin hedit₁ hfits₁ hlast₂ hfits
  obtain ⟨hcanonical', hat'⟩ := h.carry_carry hin hedit₂ hfits₂ hlast₁ hfits
  obtain ⟨hordered₁, hgrows₁, -, -⟩ := hedit₁.length
  obtain ⟨hordered₂, hgrows₂, -, -⟩ := hedit₂.length
  refine hcanonical.ext hcanonical' fun i => ?_
  rw [hat, hat', hfollows.splice_comm hordered₁ hgrows₁ hordered₂ hgrows₂ hapart]

end Spans

namespace Document

/-- Two edits with something between them commute. After the first, the second one can be made at
its range carried along; after the second, the first one is as it was. Both ways lead to one text,
and carry canonical spans to the same spans. It is assumed that the texts fit a machine word. -/
theorem separate_edits_commute {d d₁ d₂ : Document} {r₁ r₂ : ByteRange} {text₁ text₂ : String}
    {e₁ e₂ : TextEdit} (hplan₁ : d.planEdit r₁ text₁ = .ok e₁)
    (hreplace₁ : d.replace r₁ text₁ = .ok d₁) (hplan₂ : d.planEdit r₂ text₂ = .ok e₂)
    (hreplace₂ : d.replace r₂ text₂ = .ok d₂) (hapart : r₁.stop < r₂.start)
    (hfits₁ : d₁.length < wordSize) (hfits₂ : d₂.length < wordSize) :
    d₁.Takes (e₁.carryRange r₂) ∧ d₂.Takes (e₂.carryRange r₁) ∧
      ∃ e₂' d',
        d₁.planEdit (e₁.carryRange r₂) text₂ = .ok e₂' ∧
        d₁.replace (e₁.carryRange r₂) text₂ = .ok d' ∧
        d₂.planEdit (e₂.carryRange r₁) text₁ = .ok e₁ ∧
        d₂.replace (e₂.carryRange r₁) text₁ = .ok d' ∧
        (d'.length < wordSize → ∀ spans, Spans.Canonical spans →
          Spans.Within ⟨0, d.length⟩ spans →
          Spans.carry (Spans.carry spans e₁) e₂' = Spans.carry (Spans.carry spans e₂) e₁) := by
  have hedit₁ : d.Edits e₁ d₁ := ⟨r₁, text₁, hplan₁, hreplace₁⟩
  have hedit₂ : d.Edits e₂ d₂ := ⟨r₂, text₂, hplan₂, hreplace₂⟩
  obtain ⟨htakes₁, -, hold₁, -⟩ := planEdit_eq_ok hplan₁
  obtain ⟨htakes₂, hstart₂, -, -⟩ := planEdit_eq_ok hplan₂
  obtain ⟨e₂', d', hplan₂', hreplace₂', hplan₁', hreplace₁', hfollows⟩ :=
    exists_edits_apart hplan₁ hreplace₁ hplan₂ hreplace₂ hapart hfits₁
  have hstays : e₂.carryRange r₁ = r₁ :=
    TextEdit.carryRange_before htakes₁.ordered (by omega)
  refine ⟨hedit₁.takes_carryRange hfits₁ htakes₂, hedit₂.takes_carryRange hfits₂ htakes₁, e₂', d',
    hplan₂', hreplace₂', hstays.symm ▸ hplan₁', hstays.symm ▸ hreplace₁', ?_⟩
  intro hfits spans hspans hin
  exact hspans.carry_comm hin hedit₁ hedit₂ ⟨_, _, hplan₂', hreplace₂'⟩ ⟨_, _, hplan₁', hreplace₁'⟩
    hfits₁ hfits₂ hfits (by omega) hfollows

/-- The first edit grows the text by a row, the second removes what kept two spans apart. Their
spans become one in the first step or in the last. -/
theorem separate_edits_commute_merge :
    let d := ofString "let a = f(x, y)"
    let d₁ := ofString "let\n éa = f(x, y)"
    let d₂ := ofString "let a = f(y)"
    let e₁ : TextEdit := ⟨⟨3, ⟨0, 3⟩⟩, ⟨4, ⟨0, 4⟩⟩, ⟨7, ⟨1, 3⟩⟩, "\n é"⟩
    let e₂ : TextEdit := ⟨⟨10, ⟨0, 10⟩⟩, ⟨13, ⟨0, 13⟩⟩, ⟨10, ⟨0, 10⟩⟩, ""⟩
    let spans : List Span :=
      [⟨⟨0, 3⟩, .keyword⟩, ⟨⟨8, 10⟩, .function⟩, ⟨⟨10, 11⟩, .number⟩, ⟨⟨13, 15⟩, .function⟩]
    (d.planEdit ⟨3, 4⟩ "\n é" = .ok e₁ ∧ d.replace ⟨3, 4⟩ "\n é" = .ok d₁) ∧
      (d.planEdit ⟨10, 13⟩ "" = .ok e₂ ∧ d.replace ⟨10, 13⟩ "" = .ok d₂) ∧
      d₁.Takes (e₁.carryRange ⟨10, 13⟩) ∧ d₂.Takes (e₂.carryRange ⟨3, 4⟩) ∧
      ∃ e₂' d', d₁.replace ⟨13, 16⟩ "" = .ok d' ∧ d₂.replace ⟨3, 4⟩ "\n é" = .ok d' ∧
        Spans.carry (Spans.carry spans e₁) e₂' = Spans.carry (Spans.carry spans e₂) e₁ ∧
        Spans.carry (Spans.carry spans e₂) e₁ =
          [⟨⟨0, 3⟩, .keyword⟩, ⟨⟨11, 15⟩, .function⟩] := by
  intro d d₁ d₂ e₁ e₂ spans
  have hplan₁ : d.planEdit ⟨3, 4⟩ "\n é" = .ok e₁ := rfl
  have hreplace₁ : d.replace ⟨3, 4⟩ "\n é" = .ok d₁ := rfl
  have hplan₂ : d.planEdit ⟨10, 13⟩ "" = .ok e₂ := rfl
  have hreplace₂ : d.replace ⟨10, 13⟩ "" = .ok d₂ := rfl
  have hspans : Spans.Canonical spans := ⟨by decide, by unfold Spans.Ordered; decide, by decide⟩
  have hin : Spans.Within ⟨0, d.length⟩ spans := by unfold Spans.Within; decide
  obtain ⟨htakes₂, htakes₁, e₂', d', -, hfirst, -, hlast, hspread⟩ :=
    separate_edits_commute hplan₁ hreplace₁ hplan₂ hreplace₂ (by decide) (by decide) (by decide)
  have hfinal : d' = ofString "let\n éa = f(y)" := Except.ok.inj (hlast.symm.trans rfl)
  subst hfinal
  exact ⟨⟨hplan₁, hreplace₁⟩, ⟨hplan₂, hreplace₂⟩, htakes₂, htakes₁, e₂', _, hfirst, hlast,
    hspread (by decide) spans hspans hin, by decide⟩

end Document

end LiveHighlight
