import LiveHighlight.CommandLine.Options
import Mathlib.Data.List.Basic

/-! Scripts of edits as texts. Reading a script undoes writing the edit, and the scripts that are
read are those with a range of two numbers before the first equals sign. -/

namespace LiveHighlight

namespace EditScript

/-! ### Separators -/

/-- A text is cut where a separator first stands in it. -/
structure FirstSplit (separator text before after : List Char) : Prop where
  whole : text = before ++ separator ++ after
  first : ∀ before' after', text = before' ++ separator ++ after' → before.length ≤ before'.length

variable {separator text before after before' after' : List Char}

theorem FirstSplit.unique (h : FirstSplit separator text before after)
    (h' : FirstSplit separator text before' after') : before = before' ∧ after = after' := by
  have hlength : before.length = before'.length :=
    Nat.le_antisymm (h.first _ _ h'.whole) (h'.first _ _ h.whole)
  have hwhole : before ++ (separator ++ after) = before' ++ (separator ++ after') := by
    rw [← List.append_assoc, ← List.append_assoc, ← h.whole, h'.whole]
  obtain ⟨hbefore, hafter⟩ := List.append_inj hwhole hlength
  exact ⟨hbefore, List.append_cancel_left hafter⟩

/-- A separator is first where the text before it lacks the separator's first character. -/
theorem FirstSplit.of_notMem {c : Char} {more : List Char} (h : c ∉ before) :
    FirstSplit (c :: more) (before ++ (c :: more) ++ after) before after where
  whole := rfl
  first := by
    intro before' after' hwhole
    rw [List.append_assoc, List.append_assoc] at hwhole
    rcases List.append_eq_append_iff.mp hwhole with ⟨gap, rfl, -⟩ | ⟨gap, rfl, hgap⟩
    · rw [List.length_append]
      exact Nat.le_add_right _ _
    · cases gap with
      | nil => exact Nat.le_of_eq (by rw [List.append_nil])
      | cons d gap =>
        -- The separator would begin within the text before it.
        obtain ⟨rfl, -⟩ := List.cons.inj hgap
        exact absurd (List.mem_append_right _ List.mem_cons_self) h

theorem splitAt_cons (c : Char) (cs : List Char) : splitAt separator (c :: cs) =
    if separator.isPrefixOf (c :: cs) then some ([], (c :: cs).drop separator.length)
    else (splitAt separator cs).map fun (before, after) => (c :: before, after) := rfl

/-- A separator that stands further on in a text does not stand at its beginning. -/
theorem eq_cons_of_not_prefix {c : Char} {cs : List Char}
    (h : ¬ separator <+: c :: cs) (hwhole : c :: cs = before ++ separator ++ after) :
    ∃ rest, before = c :: rest ∧ cs = rest ++ separator ++ after := by
  cases before with
  | nil => exact absurd ⟨after, hwhole.symm⟩ h
  | cons d rest =>
    obtain ⟨rfl, hrest⟩ := List.cons.inj hwhole
    exact ⟨rest, rfl, hrest⟩

theorem splitAt_some (h : splitAt separator text = some (before, after)) :
    FirstSplit separator text before after := by
  induction text generalizing before with
  | nil => cases h
  | cons c cs ih =>
    rw [splitAt_cons] at h
    split at h
    · rename_i hbegins
      obtain ⟨rest, hrest⟩ := List.isPrefixOf_iff_prefix.mp hbegins
      cases h
      constructor
      · rw [← hrest, List.drop_left, List.nil_append]
      · intro before' after' _
        exact Nat.zero_le _
    · rename_i hbegins
      rw [List.isPrefixOf_iff_prefix] at hbegins
      obtain ⟨⟨before, after⟩, hsplit, heq⟩ := Option.map_eq_some_iff.mp h
      cases heq
      have hfirst := ih hsplit
      constructor
      · rw [hfirst.whole]
        rfl
      · intro before' after' hwhole
        obtain ⟨rest, rfl, hrest⟩ := eq_cons_of_not_prefix hbegins hwhole
        exact Nat.succ_le_succ (hfirst.first rest after' hrest)

theorem splitAt_none (hsome : separator ≠ []) (h : splitAt separator text = none) :
    text ≠ before ++ separator ++ after := by
  induction text generalizing before with
  | nil =>
    intro hwhole
    have hnil := List.append_eq_nil_iff.mp hwhole.symm
    exact hsome (List.append_eq_nil_iff.mp hnil.1).2
  | cons c cs ih =>
    rw [splitAt_cons] at h
    split at h
    · cases h
    · rename_i hbegins
      rw [List.isPrefixOf_iff_prefix] at hbegins
      intro hwhole
      obtain ⟨rest, -, hrest⟩ := eq_cons_of_not_prefix hbegins hwhole
      exact ih (Option.map_eq_none_iff.mp h) hrest

theorem splitAt_eq_some_iff (hsome : separator ≠ []) :
    splitAt separator text = some (before, after) ↔ FirstSplit separator text before after := by
  constructor
  · exact splitAt_some
  · intro hfirst
    cases hsplit : splitAt separator text with
    | none => exact absurd hfirst.whole (splitAt_none hsome hsplit)
    | some parts =>
      obtain ⟨rfl, rfl⟩ := (splitAt_some hsplit).unique hfirst
      rfl

/-! ### Numbers -/

/-- A text is a number in decimal digits, with or without a plus sign. -/
def Numeral (text : List Char) (n : Nat) : Prop :=
  ∃ digits, (text = digits ∨ text = '+' :: digits) ∧ digits ≠ [] ∧
    (∀ c ∈ digits, c.isDigit = true) ∧ Nat.ofDigitChars 10 digits 0 = n

theorem digitsValue_eq (digits : List Char) :
    digitsValue digits = Nat.ofDigitChars 10 digits 0 := by
  rw [Nat.ofDigitChars_eq_foldl, digitsValue]
  congr 1
  funext n c
  rw [Nat.mul_comm]

/-- A decimal number as it is printed. -/
theorem numeral_toString (n : Nat) : Numeral (toString n).toList n := by
  rw [Nat.toString_eq_ofList_toDigits, String.toList_ofList]
  exact ⟨_, .inl rfl, Nat.toDigits_ne_nil,
    fun c hc => Nat.isDigit_of_mem_toDigits (by decide) (by decide) hc,
    Nat.ofDigitChars_ten_toDigits⟩

/-- A printed number has no character but digits. -/
theorem notMem_toString {c : Char} (h : c.isDigit = false) (n : Nat) : c ∉ (toString n).toList := by
  rw [Nat.toString_eq_ofList_toDigits, String.toList_ofList]
  intro hc
  rw [Nat.isDigit_of_mem_toDigits (by decide) (by decide) hc] at h
  cases h

/-- The digits of a number in a script. -/
def digitsOf (text : List Char) : List Char := match text with | '+' :: rest => rest | _ => text

theorem readOffset_eq (text : List Char) : readOffset text =
    if (digitsOf text).isEmpty ∨ !(digitsOf text).all Char.isDigit ∨
      wordSize ≤ digitsValue (digitsOf text) then none
    else some (digitsValue (digitsOf text)) := rfl

theorem numeral_iff {n : Nat} : Numeral text n ↔ digitsOf text ≠ [] ∧
    (digitsOf text).all Char.isDigit = true ∧ digitsValue (digitsOf text) = n := by
  simp only [List.all_eq_true, digitsValue_eq]
  constructor
  · rintro ⟨digits, htext, hsome, hdigits, hvalue⟩
    have hof : digitsOf text = digits := by
      rcases htext with rfl | rfl
      · unfold digitsOf
        split
        · -- A plus sign is no digit.
          exact absurd (hdigits '+' List.mem_cons_self) (by decide)
        · rfl
      · rfl
    rw [hof]
    exact ⟨hsome, hdigits, hvalue⟩
  · rintro ⟨hsome, hdigits, hvalue⟩
    refine ⟨digitsOf text, ?_, hsome, hdigits, hvalue⟩
    unfold digitsOf
    split
    · exact .inr rfl
    · exact .inl rfl

theorem readOffset_eq_some_iff {n : Nat} :
    readOffset text = some n ↔ Numeral text n ∧ n < wordSize := by
  rw [readOffset_eq, numeral_iff]
  constructor
  · intro h
    split at h
    · cases h
    · rename_i hok
      cases h
      simp only [not_or, List.isEmpty_iff, Bool.not_eq_true', Bool.not_eq_false] at hok
      exact ⟨⟨hok.1, hok.2.1, rfl⟩, by omega⟩
  · rintro ⟨⟨hsome, hdigits, rfl⟩, hfits⟩
    rw [if_neg]
    simp only [not_or, List.isEmpty_iff, Bool.not_eq_true', Bool.not_eq_false]
    exact ⟨hsome, hdigits, by omega⟩

/-! ### Newlines -/

/-- What stands for a newline in a script. -/
def newlineMark : List Char := ['\\', 'n']

/-- A text with every newline as its mark. -/
def escape (text : List Char) : List Char :=
  text.flatMap fun c => if c = '\n' then newlineMark else [c]

theorem escape_newline (text : List Char) :
    escape ('\n' :: text) = '\\' :: 'n' :: escape text := rfl

theorem escape_cons {c : Char} (h : c ≠ '\n') (text : List Char) :
    escape (c :: text) = c :: escape text := by
  rw [escape, List.flatMap_cons, if_neg h]
  rfl

theorem unescape_cons {c : Char} {rest : List Char} (h : ¬ newlineMark <+: c :: rest) :
    unescape (c :: rest) = c :: unescape rest := by
  rw [unescape]
  rintro rest' rfl rfl
  exact h ⟨rest', rfl⟩

/-- Marking newlines makes no other mark. -/
theorem mark_prefix_escape {c : Char} {text : List Char} (hc : c ≠ '\n')
    (h : newlineMark <+: c :: escape text) : newlineMark <+: c :: text := by
  obtain ⟨rfl, hrest⟩ := List.cons_prefix_cons.mp h
  cases text with
  | nil => cases List.prefix_nil.mp hrest
  | cons d text =>
    by_cases hd : d = '\n'
    · rw [hd, escape_newline] at hrest
      exact absurd (List.cons_prefix_cons.mp hrest).1 (by decide)
    · rw [escape_cons hd] at hrest
      obtain ⟨rfl, -⟩ := List.cons_prefix_cons.mp hrest
      exact ⟨text, rfl⟩

theorem unescape_escape {text : List Char} (h : ¬ newlineMark <:+: text) :
    unescape (escape text) = text := by
  induction text with
  | nil => rfl
  | cons c text ih =>
    rw [List.infix_cons_iff, not_or] at h
    by_cases hc : c = '\n'
    · rw [hc, escape_newline, unescape, ih h.2]
    · rw [escape_cons hc, unescape_cons fun hmark => h.1 (mark_prefix_escape hc hmark), ih h.2]

theorem escape_unescape (text : List Char) : escape (unescape text) = escape text := by
  fun_induction unescape text with
  | case1 rest ih => rw [escape_newline, ih, escape_cons (by decide), escape_cons (by decide)]
  | case2 c rest _ ih =>
    by_cases hc : c = '\n'
    · rw [hc, escape_newline, escape_newline, ih]
    · rw [escape_cons hc, escape_cons hc, ih]
  | case3 => rfl

theorem head_unescape {text : List Char} (h : ['n'] <+: unescape text) : ['n'] <+: text := by
  fun_cases unescape text with
  | case1 rest =>
    rw [unescape] at h
    exact absurd (List.cons_prefix_cons.mp h).1 (by decide)
  | case2 c rest hmark =>
    rw [unescape_cons fun hbegins => ?_] at h
    · obtain ⟨rfl, -⟩ := List.cons_prefix_cons.mp h
      exact ⟨rest, rfl⟩
    · obtain ⟨rest', hrest⟩ := hbegins
      cases hrest
      exact hmark rest' rfl rfl
  | case3 => exact h

/-- No mark is left where all marks have been taken for newlines. -/
theorem not_mark_unescape (text : List Char) : ¬ newlineMark <:+: unescape text := by
  fun_induction unescape text with
  | case1 rest ih =>
    rw [List.infix_cons_iff, not_or]
    exact ⟨fun hmark => absurd (List.cons_prefix_cons.mp hmark).1 (by decide), ih⟩
  | case2 c rest hmark ih =>
    rw [List.infix_cons_iff, not_or]
    refine ⟨fun hbegins => ?_, ih⟩
    obtain ⟨rfl, hn⟩ := List.cons_prefix_cons.mp hbegins
    obtain ⟨rest', rfl⟩ := head_unescape hn
    exact hmark rest' rfl rfl
  | case3 => exact fun h => absurd (List.eq_nil_of_infix_nil h) (by decide)

/-- A text with its marks taken for newlines is the one text without marks that is written alike. -/
theorem eq_unescape_iff {text found : List Char} :
    found = unescape text ↔ ¬ newlineMark <:+: found ∧ escape found = escape text := by
  constructor
  · rintro rfl
    exact ⟨not_mark_unescape text, escape_unescape text⟩
  · rintro ⟨hmark, hescape⟩
    rw [← unescape_escape hmark, hescape, ← escape_unescape text,
      unescape_escape (not_mark_unescape text)]

/-! ### Scripts -/

/-- An edit as a script. -/
def render (e : EditScript) : String :=
  toString e.range.start ++ ".." ++ toString e.range.stop ++ "=" ++
    String.ofList (escape e.text.toList)

/-- An edit that a script can ask for: its offsets fit a word, and its text holds nothing that would
be taken for a newline. -/
structure Writable (e : EditScript) : Prop where
  start : e.range.start < wordSize
  stop : e.range.stop < wordSize
  text : ¬ newlineMark <:+: e.text.toList

/-- A script asks for an edit. Two numbers stand before its first equals sign, the first two dots in
a row between them, and the rest is the text of the edit with some newlines marked. -/
structure Asks (script : String) (e : EditScript) : Prop where
  writable : e.Writable
  parts : ∃ range text start stop, FirstSplit ['='] script.toList range text ∧
    FirstSplit ['.', '.'] range start stop ∧ Numeral start e.range.start ∧
    Numeral stop e.range.stop ∧ escape e.text.toList = escape text

theorem asks_render {e : EditScript} (h : e.Writable) : Asks e.render e where
  writable := h
  parts := by
    refine ⟨(toString e.range.start).toList ++ ['.', '.'] ++ (toString e.range.stop).toList,
      escape e.text.toList, (toString e.range.start).toList, (toString e.range.stop).toList,
      ?_, FirstSplit.of_notMem (notMem_toString rfl _), numeral_toString _, numeral_toString _, ?_⟩
    · have hparts : e.render.toList = (toString e.range.start).toList ++ ['.', '.'] ++
          (toString e.range.stop).toList ++ ['='] ++ escape e.text.toList := by
        simp only [render, String.toList_append, String.toList_ofList]
        rfl
      rw [hparts]
      apply FirstSplit.of_notMem
      simp only [List.mem_append, not_or]
      exact ⟨⟨notMem_toString rfl _, by decide⟩, notMem_toString rfl _⟩
    · have hback := escape_unescape (escape e.text.toList)
      rw [unescape_escape h.text] at hback
      exact hback

theorem read_eq_ok_iff {script : String} {e : EditScript} :
    read script = .ok e ↔ Asks script e := by
  constructor
  · intro h
    unfold read at h
    split at h
    · cases h
    rename_i range text hequals
    split at h
    · cases h
    rename_i start stop hdots
    split at h
    · rename_i a b hstart hstop
      cases h
      obtain ⟨hstart, ha⟩ := readOffset_eq_some_iff.mp hstart
      obtain ⟨hstop, hb⟩ := readOffset_eq_some_iff.mp hstop
      obtain ⟨hmark, hescape⟩ := eq_unescape_iff.mp (String.toList_ofList (l := unescape text))
      exact ⟨⟨ha, hb, hmark⟩, range, text, start, stop, splitAt_some hequals, splitAt_some hdots,
        hstart, hstop, hescape⟩
    · cases h
    · cases h
  · rintro ⟨⟨ha, hb, hmark⟩, range, text, start, stop, hequals, hdots, hstart, hstop, hescape⟩
    have htext := eq_unescape_iff.mpr ⟨hmark, hescape⟩
    rw [read, (splitAt_eq_some_iff (by decide)).mpr hequals]
    simp only
    rw [(splitAt_eq_some_iff (by decide)).mpr hdots]
    simp only
    rw [readOffset_eq_some_iff.mpr ⟨hstart, ha⟩, readOffset_eq_some_iff.mpr ⟨hstop, hb⟩, ← htext,
      String.ofList_toList]

/-- Reading scripts undoes writing edits. For all offsets that fit a word and every text in which no
backslash stands before an n, the script of that edit is read as that edit. A script is read as an
edit if and only if it asks for that edit, and one that asks for no edit is refused. -/
theorem scripts_exact :
    (∀ start stop text, start < wordSize → stop < wordSize → ¬ ['\\', 'n'] <:+: text.toList →
      read (render ⟨⟨start, stop⟩, text⟩) = .ok ⟨⟨start, stop⟩, text⟩) ∧
      (∀ script e, read script = .ok e ↔ Asks script e) ∧
      ∀ script, (∀ e, ¬ Asks script e) → ∃ problem, read script = .error problem := by
  refine ⟨fun start stop text hstart hstop htext => ?_, fun script e => read_eq_ok_iff,
    fun script hnone => ?_⟩
  · exact read_eq_ok_iff.mpr (asks_render ⟨hstart, hstop, htext⟩)
  · cases hread : read script with
    | ok e => exact absurd (read_eq_ok_iff.mp hread) (hnone e)
    | error problem => exact ⟨problem, rfl⟩

/-- A backslash before a newline, with both separators in the text and the greatest offset. A script
with three dots is refused. -/
theorem scripts_exact_separators :
    read "0..18446744073709551615=a..b=\\\\nn" = .ok ⟨⟨0, maxWord⟩, "a..b=\\\nn"⟩ ∧
      (∃ problem, read "1...2=a" = .error problem) := by
  obtain ⟨hround, hexact, hrefused⟩ := scripts_exact
  constructor
  · have hscript : render ⟨⟨0, maxWord⟩, "a..b=\\\nn"⟩ = "0..18446744073709551615=a..b=\\\\nn" := by
      decide +kernel
    rw [← hscript]
    exact hround 0 maxWord "a..b=\\\nn" (by decide) (by decide) (by decide +kernel)
  · apply hrefused
    intro e hasks
    have hread : read "1...2=a" = .error (.badEnd ".2") := by decide +kernel
    cases hread.symm.trans ((hexact "1...2=a" e).mpr hasks)

end EditScript

end LiveHighlight
