import LiveHighlight.Proofs.Config.Skipping

/-! Texts between quotes are read as the characters that they write and refused if they write none,
and whole numbers and truth values are read as themselves. -/

namespace LiveHighlight

open ConfigText

namespace ConfigInput

variable {input : ConfigInput} {c : Char} {cs ds rest rest' : List Char}

theorem Reads.bind {α β : Type} {result : Except ConfigFailure (α × ConfigInput)} {a : α} {b : β}
    {next : α × ConfigInput → Except ConfigFailure (β × ConfigInput)} (h : Reads result a rest)
    (hnext : ∀ out, out.rest = rest → Reads (next (a, out)) b rest') :
    Reads (result >>= next) b rest' := by
  obtain ⟨out, rfl, hout⟩ := h
  exact hnext out hout

theorem Leaves.bind_reads {α : Type} {result : Except ConfigFailure ConfigInput} {a : α}
    {next : ConfigInput → Except ConfigFailure (α × ConfigInput)} (h : Leaves result rest)
    (hnext : ∀ out, out.rest = rest → Reads (next out) a rest') :
    Reads (result >>= next) a rest' := by
  obtain ⟨out, rfl, hout⟩ := h
  exact hnext out hout

theorem ok_bind {α β : Type} (a : α) (next : α → Except ConfigFailure β) :
    (Except.ok a >>= next) = next a := rfl

/-! ### Texts -/

/-- No character is one half of a pair of units. -/
theorem toNat_bounds (c : Char) : c.toNat < 0xd800 ∨ 0xdfff < c.toNat ∧ c.toNat < 0x110000 :=
  c.valid

/-- A number is a character if it is no half of a pair of units. -/
theorem toNat_ofNat {n : Nat} (h : n < 0xd800 ∨ 0xdfff < n ∧ n < 0x110000) :
    (Char.ofNat n).toNat = n := by
  rw [Char.ofNat, dif_pos h]
  rfl

/-- Two halves in their order are those of a character. -/
theorem exists_pair {n m : Nat} (hn : 0xd800 ≤ n ∧ n < 0xdc00) (hm : 0xdc00 ≤ m ∧ m ≤ 0xdfff) :
    ∃ c : Char, 0x10000 ≤ c.toNat ∧ 0xd800 + (c.toNat - 0x10000) / 0x400 = n ∧
      0xdc00 + (c.toNat - 0x10000) % 0x400 = m := by
  refine ⟨Char.ofNat (0x10000 + (n - 0xd800) * 0x400 + (m - 0xdc00)), ?_⟩
  rw [toNat_ofNat (.inr (by omega))]
  omega

theorem unicodeEscape_unit {digits : List Char} (hunit : HexUnit digits c.toNat)
    (h : input.rest = digits ++ rest) : Reads input.unicodeEscape c rest := by
  have hbounds := toNat_bounds c
  refine (hexEscape_reads hunit h).bind fun out hout => ?_
  simp only
  rw [if_neg (by omega), if_pos (by omega), Char.ofNat_toNat]
  exact ⟨out, rfl, hout⟩

theorem require_leaves (h : input.rest = c :: rest) : Leaves (input.require c) rest := by
  rw [require, h]
  simp only [if_true]
  exact .of_eq (advance_rest _ _ _)

/-- After the first half of a pair comes an escape with the second half. -/
theorem unicodeEscape_high {digits : List Char} {n : Nat} (hunit : HexUnit digits n)
    (hhigh : 0xd800 ≤ n ∧ n < 0xdc00) (h : input.rest = digits ++ rest) :
    ∃ out : ConfigInput, out.rest = rest ∧ input.unicodeEscape = (do
      let out ← out.require '\\'
      let out ← out.require 'u'
      let (low, out) ← out.hexEscape
      if low < 0xdc00 ∨ 0xdfff < low then out.fail .loneSurrogate
      else return (Char.ofNat (0x10000 + (n - 0xd800) * 0x400 + (low - 0xdc00)), out)) := by
  obtain ⟨out, hread, hout⟩ := hexEscape_reads hunit h
  refine ⟨out, hout, ?_⟩
  simp only [unicodeEscape, hread, ok_bind]
  rw [if_neg (by omega), if_neg (by omega)]

theorem unicodeEscape_pair {high low : List Char} (hc : 0x10000 ≤ c.toNat)
    (hhigh : HexUnit high (0xd800 + (c.toNat - 0x10000) / 0x400))
    (hlow : HexUnit low (0xdc00 + (c.toNat - 0x10000) % 0x400))
    (h : input.rest = high ++ '\\' :: 'u' :: (low ++ rest)) : Reads input.unicodeEscape c rest := by
  have hbounds := toNat_bounds c
  obtain ⟨out, hout, heq⟩ := unicodeEscape_high hhigh (by omega) h
  rw [heq]
  refine (require_leaves hout).bind_reads fun out hout => ?_
  refine (require_leaves hout).bind_reads fun out hout => ?_
  refine (hexEscape_reads hlow hout).bind fun out hout => ?_
  simp only
  rw [if_neg (by omega)]
  have hjoin : 0x10000 + (0xd800 + (c.toNat - 0x10000) / 0x400 - 0xd800) * 0x400 +
      (0xdc00 + (c.toNat - 0x10000) % 0x400 - 0xdc00) = c.toNat := by omega
  rw [hjoin, Char.ofNat_toNat]
  exact ⟨out, rfl, hout⟩

theorem escape_short {e : Char} (he : (e, c) ∈ shortEscapes) (h : input.rest = e :: rest) :
    Reads input.escape c rest := by
  obtain ⟨hplain, hne⟩ := simpleEscape_of_mem he
  rw [escape, h]
  simp only [hne, if_false, hplain]
  exact ⟨_, rfl, advance_rest _ _ _⟩

theorem escape_unicode (h : input.rest = 'u' :: rest) :
    input.escape = (input.advance 'u' rest).unicodeEscape := by
  rw [escape, h]
  simp only [if_true]

theorem textFrom_plain (hc : Plain c) {found : List Char} {count : Nat}
    (h : input.rest = c :: rest) :
    textFrom found (count + 1) input = textFrom (c :: found) count (input.advance c rest) := by
  obtain ⟨hquote, hslash, hcontrol⟩ := hc
  rw [textFrom, h]
  simp only [hquote, hslash, if_false, if_neg (Nat.not_lt.mpr hcontrol)]

theorem textFrom_escape {found more : List Char} {count : Nat} (h : input.rest = '\\' :: more)
    (hread : Reads (escape (input.advance '\\' more)) c rest)
    (hnext : ∀ out, out.rest = rest →
      Reads (textFrom (c :: found) count out) (String.ofList ((c :: found).reverse ++ cs)) rest') :
    Reads (textFrom found (count + 1) input) (String.ofList (found.reverse ++ c :: cs)) rest' := by
  rw [textFrom, h, List.append_cons, ← List.reverse_cons]
  exact hread.bind hnext

/-- A text between quotes is read as the characters that it writes. -/
theorem textFrom_reads {written : List Char} (hw : Writes cs written) {found : List Char}
    {count : Nat} (hcount : written.length < count) (h : input.rest = written ++ '"' :: rest) :
    Reads (textFrom found count input) (String.ofList (found.reverse ++ cs)) rest := by
  induction hw generalizing found count input with
  | nil =>
    obtain ⟨count, rfl⟩ := Nat.exists_eq_add_one.mpr (Nat.zero_lt_of_lt hcount)
    rw [textFrom, h, List.append_nil]
    exact ⟨_, rfl, advance_rest _ _ _⟩
  | @plain c cs written hplain _ ih =>
    obtain ⟨count, rfl⟩ := Nat.exists_eq_add_one.mpr (Nat.zero_lt_of_lt hcount)
    rw [textFrom_plain hplain h, List.append_cons, ← List.reverse_cons]
    exact ih (Nat.lt_of_succ_lt_succ hcount) (advance_rest _ _ _)
  | @short e c cs written he _ ih =>
    obtain ⟨count, rfl⟩ := Nat.exists_eq_add_one.mpr (Nat.zero_lt_of_lt hcount)
    simp only [List.length_cons] at hcount
    refine textFrom_escape h (escape_short he (advance_rest _ _ _)) fun out hout => ?_
    exact ih (by omega) hout
  | @unit c digits cs written hunit _ ih =>
    obtain ⟨count, rfl⟩ := Nat.exists_eq_add_one.mpr (Nat.zero_lt_of_lt hcount)
    simp only [List.length_append, List.length_cons, List.append_assoc, List.cons_append]
      at h hcount
    refine textFrom_escape h ?_ fun out hout => ih (by omega) hout
    rw [escape_unicode (advance_rest _ _ _)]
    exact unicodeEscape_unit hunit (advance_rest _ _ _)
  | @pair c high low cs written hc hhigh hlow _ ih =>
    obtain ⟨count, rfl⟩ := Nat.exists_eq_add_one.mpr (Nat.zero_lt_of_lt hcount)
    simp only [List.length_append, List.length_cons, List.append_assoc, List.cons_append]
      at h hcount
    refine textFrom_escape h ?_ fun out hout => ih (by omega) hout
    rw [escape_unicode (advance_rest _ _ _)]
    exact unicodeEscape_pair hc hhigh hlow (advance_rest _ _ _)

theorem text_reads {written : List Char} (hw : Writes cs written)
    (h : input.rest = written ++ '"' :: rest) : Reads input.text (String.ofList cs) rest :=
  textFrom_reads hw (length_lt_of_rest h) h

/-! ### Texts that write no characters -/

/-- Reading fails over half of a pair of units without its other half. -/
def Refused {α : Type} (result : Except ConfigFailure α) : Prop :=
  ∃ failure, result = .error failure ∧
    (failure.problem = .loneSurrogate ∨ failure.problem = .unfinishedSurrogate)

theorem Refused.bind {α β : Type} {result : Except ConfigFailure α} (h : Refused result)
    (next : α → Except ConfigFailure β) : Refused (result >>= next) := by
  obtain ⟨failure, rfl, hproblem⟩ := h
  exact ⟨failure, rfl, hproblem⟩

theorem Reads.bind_refused {α β : Type} {result : Except ConfigFailure (α × ConfigInput)} {a : α}
    {next : α × ConfigInput → Except ConfigFailure β} (h : Reads result a rest)
    (hnext : ∀ out, out.rest = rest → Refused (next (a, out))) : Refused (result >>= next) := by
  obtain ⟨out, rfl, hout⟩ := h
  exact hnext out hout

theorem Leaves.bind_refused {β : Type} {result : Except ConfigFailure ConfigInput}
    {next : ConfigInput → Except ConfigFailure β} (h : Leaves result rest)
    (hnext : ∀ out, out.rest = rest → Refused (next out)) : Refused (result >>= next) := by
  obtain ⟨out, rfl, hout⟩ := h
  exact hnext out hout

theorem require_refused {d : Char} (h : input.rest = d :: rest) (hne : d ≠ c) :
    Refused (input.require c) := by
  rw [require, h]
  simp only [hne, if_false, failNext, h]
  split
  · exact ⟨_, rfl, .inr rfl⟩
  · exact ⟨_, rfl, .inr rfl⟩

theorem unicodeEscape_low {digits : List Char} {n : Nat} (hunit : HexUnit digits n)
    (hlow : 0xdc00 ≤ n ∧ n ≤ 0xdfff) (h : input.rest = digits ++ rest) :
    Refused input.unicodeEscape := by
  refine (hexEscape_reads hunit h).bind_refused fun out _ => ?_
  simp only
  rw [if_pos hlow]
  exact ⟨_, rfl, .inl rfl⟩

/-- What an escape with a unit comes to before the end of a text: it is refused, or a character is
read from this unit, or from it and the next, and more text follows. -/
def Continues (result : Except ConfigFailure (Char × ConfigInput))
    (escaped written rest : List Char) : Prop :=
  Refused result ∨ ∃ c more, Reads result c (more ++ '"' :: rest) ∧ Quotable more ∧
    more.length ≤ written.length ∧ (Legible more → Legible (escaped ++ written))

theorem unicodeEscape_continues_high {digits written : List Char} {n : Nat}
    (hunit : HexUnit digits n) (hhigh : 0xd800 ≤ n ∧ n < 0xdc00) (hwritten : Quotable written)
    (h : input.rest = digits ++ (written ++ '"' :: rest)) :
    Continues input.unicodeEscape ('\\' :: 'u' :: digits) written rest := by
  obtain ⟨out, hout, heq⟩ := unicodeEscape_high hunit hhigh h
  rw [Continues]
  cases hwritten with
  | nil =>
    rw [heq]
    exact .inl ((require_refused hout (by decide)).bind _)
  | plain hc =>
    rw [heq]
    exact .inl ((require_refused hout hc.2.1).bind _)
  | short he =>
    rw [heq]
    refine .inl ((require_leaves hout).bind_refused fun out hout => ?_)
    exact (require_refused hout (simpleEscape_of_mem he).2).bind _
  | @unit m low more hm hmore =>
    simp only [List.append_assoc, List.cons_append] at h hout
    by_cases hlow : 0xdc00 ≤ m ∧ m ≤ 0xdfff
    · obtain ⟨c, hc, rfl, rfl⟩ := exists_pair hhigh hlow
      refine .inr ⟨c, more, unicodeEscape_pair hc hunit hm h, hmore, ?_, ?_⟩
      · simp only [List.length_append, List.length_cons]
        omega
      · rintro ⟨cs, hcs⟩
        refine ⟨c :: cs, ?_⟩
        simpa only [List.append_assoc, List.cons_append] using Writes.pair hc hunit hm hcs
    · rw [heq]
      refine .inl ((require_leaves hout).bind_refused fun out hout => ?_)
      refine (require_leaves hout).bind_refused fun out hout => ?_
      refine (hexEscape_reads hm hout).bind_refused fun out _ => ?_
      simp only
      rw [if_pos (by omega)]
      exact ⟨_, rfl, .inl rfl⟩

theorem unicodeEscape_continues {digits written : List Char} {n : Nat} (hunit : HexUnit digits n)
    (hwritten : Quotable written) (h : input.rest = digits ++ (written ++ '"' :: rest)) :
    Continues input.unicodeEscape ('\\' :: 'u' :: digits) written rest := by
  by_cases hhigh : 0xd800 ≤ n ∧ n < 0xdc00
  · exact unicodeEscape_continues_high hunit hhigh hwritten h
  by_cases hlow : 0xdc00 ≤ n ∧ n ≤ 0xdfff
  · exact .inl (unicodeEscape_low hunit hlow h)
  have hlt := hunit.lt
  have hc := toNat_ofNat (n := n) (by omega)
  rw [← hc] at hunit
  refine .inr ⟨_, written, unicodeEscape_unit hunit h, hwritten, Nat.le_refl _, ?_⟩
  rintro ⟨cs, hcs⟩
  exact ⟨_, .unit hunit hcs⟩

theorem escape_continues {digits written : List Char} {n : Nat} (hunit : HexUnit digits n)
    (hwritten : Quotable written) (h : input.rest = 'u' :: (digits ++ (written ++ '"' :: rest))) :
    Continues input.escape ('\\' :: 'u' :: digits) written rest := by
  rw [escape_unicode h]
  exact unicodeEscape_continues hunit hwritten (advance_rest _ _ _)

/-- A text between quotes that writes no characters is refused. The induction is on its length,
since a pair takes two units at once. -/
theorem textFrom_refused {written : List Char} (hwritten : Quotable written)
    (hbad : ¬ Legible written) {found : List Char} {count : Nat} (hcount : written.length < count)
    (h : input.rest = written ++ '"' :: rest) : Refused (textFrom found count input) := by
  induction hn : written.length using Nat.strongRecOn generalizing written found count input with
  | ind n ih =>
    subst hn
    obtain ⟨count, rfl⟩ := Nat.exists_eq_add_one.mpr (Nat.zero_lt_of_lt hcount)
    cases hwritten with
    | nil => exact absurd .nil hbad
    | @plain c written hc hwritten =>
      rw [textFrom_plain hc h]
      exact ih _ (Nat.lt_succ_self _) hwritten (fun hread => hbad (hread.plain hc))
        (Nat.lt_of_succ_lt_succ hcount) (advance_rest _ _ _) rfl
    | @short e c written he hwritten =>
      simp only [List.length_cons] at ih hcount
      rw [textFrom, h]
      refine (escape_short he (advance_rest _ _ _)).bind_refused fun out hout => ?_
      exact ih _ (by omega) hwritten (fun hread => hbad (hread.short he)) (by omega) hout rfl
    | @unit n digits written hunit hwritten =>
      simp only [List.length_append, List.length_cons, List.append_assoc, List.cons_append]
        at ih h hcount
      rw [textFrom, h]
      rcases escape_continues hunit hwritten (advance_rest _ _ _) with
        hrefused | ⟨c, more, hread, hmore, hlength, hlegible⟩
      · exact hrefused.bind _
      · refine hread.bind_refused fun out hout => ?_
        exact ih _ (by omega) hmore (fun hread => hbad (hlegible hread)) (by omega) hout rfl

theorem text_refused {written : List Char} (hwritten : Quotable written) (hbad : ¬ Legible written)
    (h : input.rest = written ++ '"' :: rest) : Refused input.text :=
  textFrom_refused hwritten hbad (length_lt_of_rest h) h

/-! ### Numbers and truth values -/

theorem le_ofDigitChars (n : Nat) (ds : List Char) : n ≤ Nat.ofDigitChars 10 ds n := by
  rw [Nat.ofDigitChars_eq_ofDigitChars_zero]
  exact Nat.le_add_right_of_le (Nat.le_mul_of_pos_left n (Nat.pow_pos (by decide)))

/-- Digits that fit a word are all folded into the number. -/
theorem accumulate_eq {n : Nat} {ds : List Char}
    (hfits : Nat.ofDigitChars 10 ds n < Nat.pow 2 64) :
    accumulate n ds = (Nat.ofDigitChars 10 ds n, 0) := by
  induction ds generalizing n with
  | nil => rfl
  | cons d ds ih =>
    rw [Nat.ofDigitChars_cons, Nat.mul_comm] at hfits ⊢
    have hnext := Nat.lt_of_le_of_lt (le_ofDigitChars (n * 10 + (d.toNat - '0'.toNat)) ds) hfits
    simp only [accumulate, hnext, if_true]
    exact ih hfits

/-- A number is written without leading zeros. -/
theorem whole_toDigits (n : Nat) : Whole (Nat.toDigits 10 n) := by
  induction n using Nat.strongRecOn with
  | ind n ih =>
    refine ⟨⟨Nat.toDigits_ne_nil, fun c hc => ?_⟩, fun hzero => ?_⟩
    · exact Nat.isDigit_of_mem_toDigits (by decide) (by decide) hc
    · rcases Nat.lt_or_ge n 10 with hlt | hge
      · rw [Nat.toDigits_of_lt_base hlt] at hzero ⊢
        rw [Option.some.inj hzero]
      · rw [Nat.toDigits_of_base_le (by decide) hge] at hzero
        rw [List.head?_append_of_ne_nil _ Nat.toDigits_ne_nil] at hzero
        have hdigits := (ih (n / 10) (by omega)).2 hzero
        have hvalue : Nat.ofDigitChars 10 (Nat.toDigits 10 (n / 10)) 0 = 0 := by
          rw [hdigits]
          rfl
        rw [Nat.ofDigitChars_ten_toDigits] at hvalue
        omega

theorem wholePart_of_halts {n : Nat} (hrest : Halts rest) (h : input.rest = rest) :
    input.wholePart false n 0 = .ok (.whole n, input) := by
  rw [wholePart, hrest.nextIs h (by decide) (by decide), hrest.nextIs h (by decide) (by decide)]
  rfl

theorem number_reads (hwhole : Whole ds) (hfits : Nat.ofDigitChars 10 ds 0 < Nat.pow 2 64)
    (hrest : Halts rest) (h : input.rest = ds ++ rest) :
    Reads (input.number false) (.whole (Nat.ofDigitChars 10 ds 0)) rest := by
  obtain ⟨c, more, rfl, hc⟩ := hwhole.1.head
  rw [number, h]
  simp only [List.cons_append]
  split
  · rename_i hzero
    rw [hzero] at hwhole
    obtain ⟨-, rfl⟩ := List.cons.inj (hwhole.2 rfl)
    have hafter := advance_rest input c rest
    rw [List.nil_append, no_digits hrest.noDigit hafter, if_pos rfl,
      wholePart_of_halts hrest hafter]
    exact ⟨_, congrArg _ (by rw [hzero]; rfl), hafter⟩
  · have hdigits := digits_append hwhole.1.2 hrest.noDigit h
    rw [isDigit_eq, if_pos hc, hdigits.1, accumulate_eq hfits, wholePart_of_halts hrest hdigits.2]
    exact ⟨_, rfl, hdigits.2⟩

theorem unsigned_reads {n bound : Nat} {blanks : List Char} (hn : n < bound)
    (hbound : bound ≤ Nat.pow 2 64) (expected : String) (hb : Blank blanks) (hrest : Halts rest)
    (h : input.rest = blanks ++ ((toString n).toList ++ rest)) :
    Reads (input.unsigned bound expected) n rest := by
  rw [Nat.toString_eq_ofList_toDigits, String.toList_ofList] at h
  have hwhole := whole_toDigits n
  have hvalue : Nat.ofDigitChars 10 (Nat.toDigits 10 n) 0 = n := Nat.ofDigitChars_ten_toDigits
  obtain ⟨c, more, hdigits, hc⟩ := hwhole.1.head
  have hskip : input.skipBlanks.rest = Nat.toDigits 10 n ++ rest := by
    rw [hdigits] at h ⊢
    exact skipBlanks_rest hb (isBlank_of_isDigit hc) h
  have hread := number_reads hwhole (by rw [hvalue]; exact Nat.lt_of_lt_of_le hn hbound) hrest hskip
  have hminus : c ≠ '-' := by
    rintro rfl
    cases hc
  have hfirst : input.skipBlanks.rest = c :: (more ++ rest) := by
    rw [hskip, hdigits]
    rfl
  rw [unsigned, hfirst]
  simp only [hminus, isDigit_eq, hc, false_or, if_true, if_false]
  rw [hvalue] at hread
  refine hread.bind fun out hout => ?_
  simp only [hn, if_true]
  exact ⟨out, rfl, hout⟩

theorem boolean_reads (b : Bool) {blanks : List Char} (hb : Blank blanks)
    (h : input.rest = blanks ++ ((if b then "true" else "false").toList ++ rest)) :
    Reads input.boolean b rest := by
  cases b with
  | true =>
    simp only [boolean, skipBlanks_rest hb (show isBlank 't' = false from rfl) h]
    refine (word_leaves (advance_rest _ _ _)).bind_reads fun out hout => ?_
    exact ⟨out, rfl, hout⟩
  | false =>
    simp only [boolean, skipBlanks_rest hb (show isBlank 'f' = false from rfl) h]
    refine (word_leaves (advance_rest _ _ _)).bind_reads fun out hout => ?_
    exact ⟨out, rfl, hout⟩

end ConfigInput

end LiveHighlight
