import LiveHighlight.Proofs.Config.Grammar

/-! Values nobody reads are read to their end, however deep they nest. The places reached are not
followed here, only what is left to read. -/

namespace LiveHighlight

open ConfigText

namespace ConfigInput

/-- Reading succeeds with a value and leaves a rest. -/
def Reads {α : Type} (result : Except ConfigFailure (α × ConfigInput)) (a : α)
    (rest : List Char) : Prop := ∃ out, result = .ok (a, out) ∧ out.rest = rest

/-- Reading succeeds and leaves a rest. -/
def Leaves (result : Except ConfigFailure ConfigInput) (rest : List Char) : Prop :=
  ∃ out, result = .ok out ∧ out.rest = rest

/-- What may follow a value, if anything does: a blank, a comma or a closing bracket. -/
def Halts (rest : List Char) : Prop :=
  ∀ c, rest.head? = some c → c ∈ [' ', '\t', '\n', '\r', ',', ']', '\x7d']

/-- No digit follows. -/
def NoDigit (rest : List Char) : Prop := ∀ c, rest.head? = some c → c.isDigit = false

variable {input : ConfigInput} {c : Char} {cs ds rest rest' : List Char}

@[simp] theorem advance_rest (input : ConfigInput) (c : Char) (rest : List Char) :
    (input.advance c rest).rest = rest := by
  unfold advance
  split <;> rfl

theorem tail_rest (h : input.rest = c :: rest) : input.tail.rest = rest := by
  unfold tail
  rw [h]
  exact advance_rest input c rest

theorem Leaves.of_eq {out : ConfigInput} (h : out.rest = rest) : Leaves (.ok out) rest :=
  ⟨out, rfl, h⟩

theorem Leaves.bind {result : Except ConfigFailure ConfigInput}
    {next : ConfigInput → Except ConfigFailure ConfigInput} (h : Leaves result rest)
    (hnext : ∀ out, out.rest = rest → Leaves (next out) rest') :
    Leaves (result >>= next) rest' := by
  obtain ⟨out, rfl, hout⟩ := h
  exact hnext out hout

theorem Halts.noDigit (h : Halts rest) : NoDigit rest := by
  intro c hc
  have hmem := h c hc
  simp only [List.mem_cons, List.not_mem_nil, or_false] at hmem
  rcases hmem with rfl | rfl | rfl | rfl | rfl | rfl | rfl <;> rfl

theorem Halts.cons (h : c ∈ [' ', '\t', '\n', '\r', ',', ']', '\x7d']) (rest : List Char) :
    Halts (c :: rest) := by
  intro d hd
  cases hd
  exact h

/-! ### Blanks -/

theorem isBlank_of_blank (h : Blank cs) : ∀ c ∈ cs, isBlank c = true := by
  intro c hc
  have hmem := h c hc
  simp only [List.mem_cons, List.not_mem_nil, or_false] at hmem
  rcases hmem with rfl | rfl | rfl | rfl <;> rfl

theorem skipBlanksFrom_rest (input : ConfigInput) (cs : List Char) :
    (input.skipBlanksFrom cs).rest = cs.dropWhile isBlank := by
  induction cs generalizing input with
  | nil => rfl
  | cons c cs ih =>
    rw [skipBlanksFrom, List.dropWhile_cons]
    split
    · exact ih _
    · rfl

theorem skipBlanks_rest (hblank : Blank cs) (hc : isBlank c = false)
    (h : input.rest = cs ++ c :: rest) : input.skipBlanks.rest = c :: rest := by
  rw [skipBlanks, skipBlanksFrom_rest, h, List.dropWhile_append_of_pos (isBlank_of_blank hblank),
    List.dropWhile_cons_of_neg (by rw [hc]; decide)]

theorem Halts.append (hblank : Blank cs) (h : Halts rest) : Halts (cs ++ rest) := by
  cases cs with
  | nil => exact h
  | cons c cs =>
    refine Halts.cons ?_ _
    have hmem := hblank c List.mem_cons_self
    simp only [List.mem_cons, List.not_mem_nil, or_false] at hmem ⊢
    tauto

/-! ### Words and numbers -/

theorem word_leaves {w : List Char} (h : input.rest = w ++ rest) : Leaves (input.word w) rest := by
  induction w generalizing input with
  | nil => exact .of_eq h
  | cons c w ih =>
    rw [word, h]
    simp only [List.cons_append, if_true]
    exact ih (advance_rest _ _ _)

theorem isDigit_eq : isDigit = Char.isDigit := rfl

theorem digits_append (hd : ∀ c ∈ ds, c.isDigit = true) (hrest : NoDigit rest)
    (h : input.rest = ds ++ rest) : input.digits = ds ∧ input.skipDigits.rest = rest := by
  have hnone : rest.takeWhile Char.isDigit = [] ∧ rest.dropWhile Char.isDigit = rest := by
    cases rest with
    | nil => exact ⟨rfl, rfl⟩
    | cons c rest =>
      have hc : ¬ c.isDigit = true := by
        rw [Bool.not_eq_true]
        exact hrest c rfl
      exact ⟨List.takeWhile_cons_of_neg hc, List.dropWhile_cons_of_neg hc⟩
  constructor
  · rw [digits, h, isDigit_eq, List.takeWhile_append_of_pos hd, hnone.1, List.append_nil]
  · rw [skipDigits, h, isDigit_eq, List.dropWhile_append_of_pos hd, hnone.2]

/-- Digits that are read to their end. -/
theorem some_digits_append (hd : Digits ds) (hrest : NoDigit rest) (h : input.rest = ds ++ rest) :
    input.digits.isEmpty = false ∧ input.skipDigits.rest = rest := by
  obtain ⟨hdigits, hskip⟩ := digits_append hd.2 hrest h
  rw [hdigits]
  exact ⟨by simpa using hd.1, hskip⟩

theorem no_digits (hrest : NoDigit rest) (h : input.rest = rest) : input.digits.isEmpty = true := by
  rw [(digits_append (List.forall_mem_nil _) hrest h).1]
  rfl

theorem nextIs_cons {a b : Char} (h : input.rest = c :: rest) :
    input.nextIs a b = (decide (c = a) || decide (c = b)) := by
  rw [nextIs, h]

theorem nextIs_eq_false {a b : Char} (h : ∀ c, input.rest.head? = some c → c ≠ a ∧ c ≠ b) :
    input.nextIs a b = false := by
  unfold nextIs
  cases hrest : input.rest with
  | nil => rfl
  | cons c rest =>
    obtain ⟨ha, hb⟩ := h c (by rw [hrest]; rfl)
    simp [ha, hb]

/-- What may follow a value does not continue a number. -/
theorem Halts.nextIs {a b : Char} (h : Halts rest) (hinput : input.rest = rest)
    (ha : a ∉ [' ', '\t', '\n', '\r', ',', ']', '\x7d'])
    (hb : b ∉ [' ', '\t', '\n', '\r', ',', ']', '\x7d']) : input.nextIs a b = false := by
  apply nextIs_eq_false
  rw [hinput]
  intro c hc
  constructor
  · rintro rfl
    exact ha (h _ hc)
  · rintro rfl
    exact hb (h _ hc)

theorem noDigit_power {p : List Char} (hp : Power p) (hrest : Halts rest) :
    NoDigit (p ++ rest) := by
  cases hp with
  | none => exact hrest.noDigit
  | some he =>
    intro c hc
    cases hc
    rcases he with rfl | rfl <;> rfl

theorem noDigit_decimals {f p : List Char} (hf : Decimals f) (hp : Power p) (hrest : Halts rest) :
    NoDigit (f ++ (p ++ rest)) := by
  cases hf with
  | none => exact noDigit_power (p := p) hp hrest
  | some =>
    intro c hc
    cases hc
    rfl

theorem skipSign_rest {sign : List Char} (hsign : sign ∈ [[], ['+'], ['-']]) (hd : Digits ds)
    (h : input.rest = sign ++ (ds ++ rest)) :
    (if input.nextIs '+' '-' then input.tail else input).rest = ds ++ rest := by
  simp only [List.mem_cons, List.not_mem_nil, or_false] at hsign
  rcases hsign with rfl | rfl | rfl
  · obtain ⟨c, more, rfl, hc⟩ := hd.head
    rw [nextIs_eq_false, if_neg (by decide)]
    · exact h
    · rw [h]
      intro d hd
      cases hd
      constructor
      · rintro rfl
        cases hc
      · rintro rfl
        cases hc
  · rw [nextIs_cons h, if_pos (by decide)]
    exact tail_rest h
  · rw [nextIs_cons h, if_pos (by decide)]
    exact tail_rest h

theorem power_leaves {p : List Char} (hp : Power p) (hrest : Halts rest)
    (h : input.rest = p ++ rest) :
    Leaves (if input.nextIs 'e' 'E' then input.skipPower else .ok input) rest := by
  cases hp with
  | none =>
    rw [hrest.nextIs h (by decide) (by decide)]
    exact .of_eq h
  | @some e sign ds he hsign hds =>
    have hmark : input.nextIs 'e' 'E' = true := by
      rw [nextIs_cons h]
      rcases he with rfl | rfl <;> rfl
    have htail : input.tail.rest = sign ++ (ds ++ rest) := by
      rw [← List.append_assoc]
      exact tail_rest h
    obtain ⟨hsome, hskip⟩ := some_digits_append hds hrest.noDigit (skipSign_rest hsign hds htail)
    rw [hmark, if_pos rfl, skipPower]
    simp only [hsome, Bool.false_eq_true, if_false]
    exact .of_eq hskip

theorem skipNumber_leaves {whole f p : List Char} (hwhole : Whole whole) (hf : Decimals f)
    (hp : Power p) (hrest : Halts rest) (h : input.rest = whole ++ (f ++ (p ++ rest))) :
    Leaves input.skipNumber rest := by
  have hno := noDigit_decimals hf hp hrest
  obtain ⟨c, more, rfl, hc⟩ := hwhole.1.head
  have hafter : (if c = '0' then input.advance c (more ++ (f ++ (p ++ rest))) else
      input.skipDigits).rest = f ++ (p ++ rest) := by
    split
    · rename_i hzero
      rw [hzero] at hwhole
      obtain ⟨-, rfl⟩ := List.cons.inj (hwhole.2 rfl)
      exact advance_rest _ _ _
    · exact (some_digits_append hwhole.1 hno h).2
  have hdigit : isDigit c = true := hc
  unfold skipNumber
  rw [h]
  simp only [List.cons_append, hdigit, Bool.not_true, Bool.false_eq_true, if_false]
  generalize (if c = '0' then input.advance c (more ++ (f ++ (p ++ rest))) else
      input.skipDigits) = after at hafter ⊢
  rw [no_digits hno hafter]
  simp only [Bool.not_true, Bool.false_eq_true, if_false]
  cases hf with
  | none =>
    have hpoint : after.nextIs '.' '.' = false := by
      cases hp with
      | none => exact hrest.nextIs hafter (by decide) (by decide)
      | some he =>
        rw [nextIs_cons hafter]
        rcases he with rfl | rfl <;> rfl
    rw [hpoint]
    exact power_leaves hp hrest hafter
  | some hds =>
    have hpoint : after.nextIs '.' '.' = true := nextIs_cons hafter
    obtain ⟨hsome, hskip⟩ := some_digits_append hds (noDigit_power hp hrest) (tail_rest hafter)
    rw [hpoint, if_pos rfl, hsome]
    exact power_leaves hp hrest hskip

/-! ### Texts between quotes -/

theorem hexValue_of_hexDigit {value : Nat} (h : HexDigit c value) :
    hexValue c = some value ∧ c.utf8Size = 1 := by
  have hall : ∀ p ∈ "0123456789abcdef".toList.zipIdx ++ "0123456789ABCDEF".toList.zipIdx,
      hexValue p.1 = some p.2 ∧ p.1.utf8Size = 1 := by decide +kernel
  refine hall (c, value) (List.mem_append.mpr ?_)
  exact h.imp List.mem_zipIdx_iff_getElem?.mpr List.mem_zipIdx_iff_getElem?.mpr

theorem ahead_cons {n : Nat} (hc : c.utf8Size = 1) (cs : List Char) :
    input.ahead (c :: cs) (n + 1) = (input.advance c cs).ahead cs n := by
  rw [ahead, hc, if_pos (Nat.le_add_left 1 n)]
  rfl

theorem ahead_zero (h : input.rest = cs) : ∃ out, input.ahead cs 0 = (out, 0) ∧ out.rest = cs := by
  cases cs with
  | nil => exact ⟨input, rfl, h⟩
  | cons c cs =>
    rw [ahead, if_neg (Nat.not_le_of_lt c.utf8Size_pos)]
    exact ⟨_, rfl, rfl⟩

theorem hexEscape_reads {digits : List Char} {n : Nat} (hunit : HexUnit digits n)
    (h : input.rest = digits ++ rest) : Reads input.hexEscape n rest := by
  cases hunit with
  | @digits a b c d i j k l ha hb hc hd =>
    obtain ⟨ha, hasize⟩ := hexValue_of_hexDigit ha
    obtain ⟨hb, hbsize⟩ := hexValue_of_hexDigit hb
    obtain ⟨hc, hcsize⟩ := hexValue_of_hexDigit hc
    obtain ⟨hd, hdsize⟩ := hexValue_of_hexDigit hd
    have hnumber : hexNumber a b c d = some (((i * 16 + j) * 16 + k) * 16 + l) := by
      simp only [hexNumber, ha, hb, hc, hd, Option.bind_eq_bind, Option.bind_some, Option.pure_def]
    simp only [List.cons_append, List.nil_append] at h
    unfold hexEscape
    rw [h, ahead_cons hasize, ahead_cons hbsize, ahead_cons hcsize, ahead_cons hdsize]
    obtain ⟨out, hahead, hout⟩ := ahead_zero (advance_rest
      (((input.advance a (b :: c :: d :: rest)).advance b (c :: d :: rest)).advance c (d :: rest)) d
      rest)
    rw [hahead]
    simp only [ne_eq, not_true_eq_false, if_false, hnumber]
    exact ⟨out, rfl, hout⟩

theorem simpleEscape_of_mem {e : Char} (h : (e, c) ∈ shortEscapes) :
    simpleEscape e = some c ∧ e ≠ 'u' := by
  have hall : ∀ p ∈ shortEscapes, simpleEscape p.1 = some p.2 ∧ p.1 ≠ 'u' := by decide
  exact hall (e, c) h

theorem skipEscape_short {e : Char} (he : (e, c) ∈ shortEscapes) (h : input.rest = e :: rest) :
    Leaves input.skipEscape rest := by
  obtain ⟨hplain, hne⟩ := simpleEscape_of_mem he
  rw [skipEscape, h]
  simp only [hne, if_false, hplain, Option.isSome_some, if_true]
  exact .of_eq (advance_rest _ _ _)

theorem skipEscape_unit {digits : List Char} {n : Nat} (hunit : HexUnit digits n)
    (h : input.rest = 'u' :: (digits ++ rest)) : Leaves input.skipEscape rest := by
  obtain ⟨out, hout, hrest⟩ :=
    hexEscape_reads hunit (advance_rest input 'u' (digits ++ rest))
  rw [skipEscape, h]
  simp only [if_true, hout]
  exact ⟨out, rfl, hrest⟩

theorem skipTextFrom_leaves (hcs : Quotable cs) {count : Nat} (hcount : cs.length < count)
    (h : input.rest = cs ++ '"' :: rest) : Leaves (skipTextFrom count input) rest := by
  induction hcs generalizing count input with
  | nil =>
    obtain ⟨count, rfl⟩ := Nat.exists_eq_add_one.mpr (Nat.zero_lt_of_lt hcount)
    rw [skipTextFrom, h]
    exact .of_eq (advance_rest _ _ _)
  | @plain c written hplain _ ih =>
    obtain ⟨count, rfl⟩ := Nat.exists_eq_add_one.mpr (Nat.zero_lt_of_lt hcount)
    obtain ⟨hquote, hslash, hcontrol⟩ := hplain
    rw [skipTextFrom, h]
    simp only [List.cons_append, hquote, hslash, if_false, if_neg (Nat.not_lt.mpr hcontrol)]
    exact ih (Nat.lt_of_succ_lt_succ hcount) (advance_rest _ _ _)
  | @short e c written he _ ih =>
    obtain ⟨count, rfl⟩ := Nat.exists_eq_add_one.mpr (Nat.zero_lt_of_lt hcount)
    rw [skipTextFrom, h]
    refine (skipEscape_short he (advance_rest _ _ _)).bind fun out hout => ?_
    refine ih ?_ hout
    simp only [List.length_cons] at hcount
    omega
  | @unit n digits written hunit _ ih =>
    obtain ⟨count, rfl⟩ := Nat.exists_eq_add_one.mpr (Nat.zero_lt_of_lt hcount)
    rw [List.append_assoc] at h
    rw [skipTextFrom, h]
    refine (skipEscape_unit hunit (advance_rest _ _ _)).bind fun out hout => ?_
    refine ih ?_ hout
    simp only [List.length_append, List.length_cons] at hcount
    omega

theorem length_lt_of_rest (h : input.rest = cs ++ c :: rest) :
    cs.length < input.rest.length + 1 := by
  rw [h, List.length_append]
  omega

theorem skipText_leaves (hcs : Quotable cs) (h : input.rest = cs ++ '"' :: rest) :
    Leaves input.skipText rest :=
  skipTextFrom_leaves hcs (length_lt_of_rest h) h

/-! ### Values -/

/-- A value is read to its end, whatever follows it, within twice as many steps as it has
characters. -/
def Skips (value : List Char) : Prop :=
  ∀ ⦃count : Nat⦄ ⦃input : ConfigInput⦄ (blanks : List Char) ⦃rest : List Char⦄,
    2 * value.length ≤ count → Blank blanks → Halts rest → input.rest = blanks ++ (value ++ rest) →
    Leaves (skipValue count input) rest

theorem halts_commas {close : Char} (hclose : close ∈ [']', '\x7d']) (texts : List (List Char))
    (rest : List Char) : Halts (commas texts ++ close :: rest) := by
  cases texts with
  | nil =>
    refine Halts.cons ?_ rest
    simp only [List.mem_cons, List.not_mem_nil, or_false] at hclose ⊢
    tauto
  | cons t texts => exact Halts.cons (by decide) _

theorem isBlank_of_isDigit (h : c.isDigit = true) : isBlank c = false := by
  simp only [isBlank, Bool.or_eq_false_iff, decide_eq_false_iff_not]
  refine ⟨⟨⟨?_, ?_⟩, ?_⟩, ?_⟩ <;> rintro rfl <;> cases h

/-- No value begins with a blank or a closing bracket. -/
theorem head_of_value {v : List Char} (h : Value v) :
    ∃ c more, v = c :: more ∧ isBlank c = false ∧ c ≠ ']' := by
  cases h with
  | word hw =>
    simp only [List.mem_cons, List.not_mem_nil, or_false] at hw
    rcases hw with rfl | rfl | rfl
    · exact ⟨'n', ['u', 'l', 'l'], rfl, rfl, by decide⟩
    · exact ⟨'t', ['r', 'u', 'e'], rfl, rfl, by decide⟩
    · exact ⟨'f', ['a', 'l', 's', 'e'], rfl, rfl, by decide⟩
  | number hn =>
    cases hn with
    | parts hsign hwhole _ _ =>
      obtain ⟨c, more, rfl, hc⟩ := hwhole.1.head
      simp only [List.mem_cons, List.not_mem_nil, or_false] at hsign
      rcases hsign with rfl | rfl
      · refine ⟨c, _, rfl, isBlank_of_isDigit hc, ?_⟩
        rintro rfl
        cases hc
      · exact ⟨'-', _, rfl, rfl, by decide⟩
  | text => exact ⟨'"', _, rfl, rfl, by decide⟩
  | array => exact ⟨'[', _, rfl, rfl, by decide⟩
  | object => exact ⟨'\x7b', _, rfl, rfl, by decide⟩

theorem skipBlanks_value {v blanks : List Char} (hv : Value v) (hb : Blank blanks)
    (h : input.rest = blanks ++ (v ++ rest)) : input.skipBlanks.rest = v ++ rest := by
  obtain ⟨c, more, rfl, hblank, -⟩ := head_of_value hv
  exact skipBlanks_rest hb hblank h

theorem length_pos_of_value {v : List Char} (h : Value v) : 0 < v.length := by
  obtain ⟨c, more, rfl, -⟩ := head_of_value h
  exact Nat.succ_pos _

/-! #### Arrays -/

theorem skipElements_close {first : Bool} {count : Nat} {blanks : List Char} (hb : Blank blanks)
    (h : input.rest = blanks ++ ']' :: rest) :
    Leaves (skipElements (count + 1) first input) rest := by
  simp only [skipElements, skipBlanks_rest hb (show isBlank ']' = false from rfl) h, if_true]
  exact .of_eq (advance_rest _ _ _)

theorem skipElements_comma (count : Nat) {blanks : List Char} (hb : Blank blanks)
    (h : input.rest = blanks ++ ',' :: rest) : skipElements (count + 1) false input =
      skipValue count (input.skipBlanks.advance ',' rest) >>= skipElements count false := by
  simp only [skipElements, skipBlanks_rest hb (show isBlank ',' = false from rfl) h]
  rfl

theorem skipElements_first (count : Nat) {v blanks : List Char} (hv : Value v) (hb : Blank blanks)
    (h : input.rest = blanks ++ (v ++ rest)) : skipElements (count + 1) true input =
      skipValue count input.skipBlanks >>= skipElements count false := by
  obtain ⟨c, more, rfl, hblank, hclose⟩ := head_of_value hv
  simp only [skipElements, skipBlanks_rest hb hblank h, hclose, if_false, if_true]

theorem skipElements_more {items : List Padded} (hspaced : ∀ p ∈ items, p.Spaced)
    (hskips : ∀ p ∈ items, Skips p.value) {count : Nat} {blanks : List Char} (hb : Blank blanks)
    (hcount : 2 * (commas (items.map Padded.text)).length < count)
    (h : input.rest = blanks ++ (commas (items.map Padded.text) ++ ']' :: rest)) :
    Leaves (skipElements count false input) rest := by
  induction items generalizing count input blanks with
  | nil =>
    obtain ⟨count, rfl⟩ := Nat.exists_eq_add_one.mpr (Nat.zero_lt_of_lt hcount)
    exact skipElements_close hb h
  | cons p items ih =>
    obtain ⟨count, rfl⟩ := Nat.exists_eq_add_one.mpr (Nat.zero_lt_of_lt hcount)
    obtain ⟨hp, hitems⟩ := List.forall_mem_cons.mp hspaced
    obtain ⟨hvalue, hvalues⟩ := List.forall_mem_cons.mp hskips
    simp only [List.map_cons, commas_cons, Padded.text, List.append_assoc, List.cons_append,
      List.length_cons, List.length_append] at h hcount
    rw [skipElements_comma count hb h]
    refine (hvalue p.before (by omega) hp.before (.append hp.after (halts_commas (by decide) _ _))
      (advance_rest _ _ _)).bind fun out hout => ?_
    exact ih hitems hvalues hp.after (by omega) hout

theorem skipElements_all {items : List Padded} (hspaced : ∀ p ∈ items, p.Spaced)
    (hvalues : ∀ p ∈ items, Value p.value) (hskips : ∀ p ∈ items, Skips p.value) {count : Nat}
    {blanks : List Char} (hb : Blank blanks)
    (hcount : 2 * (separated blanks (items.map Padded.text)).length < count)
    (h : input.rest = separated blanks (items.map Padded.text) ++ ']' :: rest) :
    Leaves (skipElements count true input) rest := by
  obtain ⟨count, rfl⟩ := Nat.exists_eq_add_one.mpr (Nat.zero_lt_of_lt hcount)
  cases items with
  | nil => exact skipElements_close hb h
  | cons p items =>
    obtain ⟨hp, hitems⟩ := List.forall_mem_cons.mp hspaced
    have hvalue := hvalues p List.mem_cons_self
    obtain ⟨hskip, hskips⟩ := List.forall_mem_cons.mp hskips
    simp only [List.map_cons, separated_cons, Padded.text, List.append_assoc, List.length_append]
      at h hcount
    have hsome := length_pos_of_value hvalue
    have hstart := skipBlanks_value hvalue hp.before h
    rw [skipElements_first count hvalue hp.before h]
    refine (hskip [] (by omega) .nil (.append hp.after (halts_commas (by decide) _ _))
      hstart).bind fun out hout => ?_
    exact skipElements_more hitems hskips hp.after (by omega) hout

/-! #### Objects -/

theorem skipMembers_close {first : Bool} {count : Nat} {blanks : List Char} (hb : Blank blanks)
    (h : input.rest = blanks ++ '\x7d' :: rest) :
    Leaves (skipMembers (count + 1) first input) rest := by
  simp only [skipMembers, skipBlanks_rest hb (show isBlank '\x7d' = false from rfl) h, if_true]
  exact .of_eq (advance_rest _ _ _)

theorem skipMembers_comma (count : Nat) {blanks : List Char} (hb : Blank blanks)
    (h : input.rest = blanks ++ ',' :: rest) : skipMembers (count + 1) false input =
      skipMember count (input.skipBlanks.advance ',' rest) := by
  simp only [skipMembers, skipBlanks_rest hb (show isBlank ',' = false from rfl) h]
  rfl

theorem skipMembers_first (count : Nat) {blanks : List Char} (hb : Blank blanks)
    (h : input.rest = blanks ++ '"' :: rest) : skipMembers (count + 1) true input =
      skipMember count input.skipBlanks := by
  simp only [skipMembers, skipBlanks_rest hb (show isBlank '"' = false from rfl) h]
  rfl

/-- A member is skipped up to the blanks after its value. -/
theorem skipMember_leaves {m : Member} (hspaced : m.Spaced) (hkey : Quotable m.key)
    (hskips : Skips m.content.value) {count : Nat} (blanks : List Char) {tail : List Char}
    (hb : Blank blanks) (hcount : 2 * m.content.value.length ≤ count) (htail : Halts tail)
    (h : input.rest = blanks ++ '"' :: (m.key ++ '"' :: (m.gap ++ ':' :: (m.content.text ++ tail))))
    (hnext : ∀ out, out.rest = m.content.after ++ tail →
      Leaves (skipMembers count false out) rest) :
    Leaves (skipMember (count + 1) input) rest := by
  simp only [skipMember, skipBlanks_rest hb (show isBlank '"' = false from rfl) h]
  rw [if_neg (by decide)]
  refine (skipText_leaves hkey (advance_rest _ _ _)).bind fun out hout => ?_
  simp only [skipBlanks_rest hspaced.gap (show isBlank ':' = false from rfl) hout]
  rw [if_neg (by decide)]
  have hend : Halts (m.content.after ++ tail) := htail.append hspaced.content.after
  refine (hskips m.content.before hcount hspaced.content.before hend ?_).bind hnext
  rw [advance_rest, Padded.text, List.append_assoc, List.append_assoc]

theorem skipMembers_more {ms : List Member} (hspaced : ∀ m ∈ ms, m.Spaced ∧ Quotable m.key)
    (hskips : ∀ m ∈ ms, Skips m.content.value) {count : Nat} {blanks : List Char}
    (hb : Blank blanks)
    (hcount : 2 * (commas (ms.map Member.text)).length < count)
    (h : input.rest = blanks ++ (commas (ms.map Member.text) ++ '\x7d' :: rest)) :
    Leaves (skipMembers count false input) rest := by
  induction ms generalizing count input blanks with
  | nil =>
    obtain ⟨count, rfl⟩ := Nat.exists_eq_add_one.mpr (Nat.zero_lt_of_lt hcount)
    exact skipMembers_close hb h
  | cons m ms ih =>
    obtain ⟨⟨hm, hkey⟩, hms⟩ := List.forall_mem_cons.mp hspaced
    obtain ⟨hvalue, hvalues⟩ := List.forall_mem_cons.mp hskips
    have hlength := m.value_length_le
    simp only [List.map_cons, commas_cons, List.append_assoc, List.cons_append, List.length_cons,
      List.length_append] at h hcount
    obtain ⟨count, rfl⟩ : ∃ k, count = k + 2 := ⟨count - 2, by omega⟩
    rw [skipMembers_comma (count + 1) hb h]
    refine skipMember_leaves hm hkey hvalue _ hm.before (by omega) (halts_commas (by decide) _ _) ?_
      fun out hout => ih hms hvalues hm.content.after (by omega) hout
    rw [advance_rest, m.text_append]

theorem skipMembers_all {ms : List Member} (hspaced : ∀ m ∈ ms, m.Spaced ∧ Quotable m.key)
    (hskips : ∀ m ∈ ms, Skips m.content.value) {count : Nat} {blanks : List Char}
    (hb : Blank blanks)
    (hcount : 2 * (separated blanks (ms.map Member.text)).length < count)
    (h : input.rest = separated blanks (ms.map Member.text) ++ '\x7d' :: rest) :
    Leaves (skipMembers count true input) rest := by
  cases ms with
  | nil =>
    obtain ⟨count, rfl⟩ := Nat.exists_eq_add_one.mpr (Nat.zero_lt_of_lt hcount)
    exact skipMembers_close hb h
  | cons m ms =>
    obtain ⟨⟨hm, hkey⟩, hms⟩ := List.forall_mem_cons.mp hspaced
    obtain ⟨hvalue, hvalues⟩ := List.forall_mem_cons.mp hskips
    have hlength := m.value_length_le
    simp only [List.map_cons, separated_cons, List.append_assoc, List.length_append] at h hcount
    obtain ⟨count, rfl⟩ : ∃ k, count = k + 2 := ⟨count - 2, by omega⟩
    rw [m.text_append] at h
    rw [skipMembers_first (count + 1) hm.before h]
    refine skipMember_leaves hm hkey hvalue [] .nil (by omega)
      (halts_commas (by decide) _ _) (skipBlanks_rest hm.before rfl h)
      fun out hout => skipMembers_more hms hvalues hm.content.after (by omega) hout

/-! #### All values -/

theorem skipNumber_of_number (hn : ConfigText.Number cs) {count : Nat} {blanks : List Char}
    (hb : Blank blanks) (hrest : Halts rest) (h : input.rest = blanks ++ (cs ++ rest)) :
    Leaves (skipValue (count + 1) input) rest := by
  cases hn with
  | @parts sign whole decimals power hsign hwhole hdecimals hpower =>
    simp only [List.mem_cons, List.not_mem_nil, or_false] at hsign
    simp only [List.append_assoc] at h
    rcases hsign with rfl | rfl
    · obtain ⟨c, more, rfl, hc⟩ := hwhole.1.head
      have hskip := skipBlanks_rest hb (isBlank_of_isDigit hc) h
      have hfirst : c ≠ 'n' ∧ c ≠ 't' ∧ c ≠ 'f' ∧ c ≠ '-' := by
        refine ⟨?_, ?_, ?_, ?_⟩ <;> rintro rfl <;> cases hc
      simp only [skipValue, hskip, hfirst, if_false, isDigit_eq, hc, if_true]
      exact skipNumber_leaves hwhole hdecimals hpower hrest hskip
    · simp only [skipValue, skipBlanks_rest hb (show isBlank '-' = false from rfl) h]
      exact skipNumber_leaves hwhole hdecimals hpower hrest (advance_rest _ _ _)

/-- A value has a character at least, so there is a step to read it with. -/
theorem Skips.of_value {v : List Char} (hv : Value v)
    (hstep : ∀ {count : Nat} {input : ConfigInput} {blanks rest : List Char},
      2 * v.length ≤ count + 1 → Blank blanks → Halts rest → input.rest = blanks ++ (v ++ rest) →
      Leaves (skipValue (count + 1) input) rest) : Skips v := by
  intro count input blanks rest hcount hb hrest h
  have hpos := length_pos_of_value hv
  obtain ⟨count, rfl⟩ := Nat.exists_eq_add_one.mpr (show 0 < count by omega)
  exact hstep hcount hb hrest h

/-- A value nobody reads is skipped to its end. -/
theorem skipValue_leaves {v : List Char} (hv : Value v) : Skips v := by
  induction hv with
  | word hw =>
    refine .of_value (.word hw) fun _ hb _ h => ?_
    simp only [List.mem_cons, List.not_mem_nil, or_false] at hw
    rcases hw with rfl | rfl | rfl
    · simp only [skipValue, skipBlanks_rest hb (show isBlank 'n' = false from rfl) h]
      exact word_leaves (advance_rest _ _ _)
    · simp only [skipValue, skipBlanks_rest hb (show isBlank 't' = false from rfl) h]
      exact word_leaves (advance_rest _ _ _)
    · simp only [skipValue, skipBlanks_rest hb (show isBlank 'f' = false from rfl) h]
      exact word_leaves (advance_rest _ _ _)
  | number hn =>
    exact .of_value (.number hn) fun _ hb hrest h => skipNumber_of_number hn hb hrest h
  | text hcs =>
    refine .of_value (.text hcs) fun _ hb _ h => ?_
    simp only [List.cons_append, List.append_assoc, List.nil_append] at h
    simp only [skipValue, skipBlanks_rest hb (show isBlank '"' = false from rfl) h]
    exact skipText_leaves hcs (advance_rest _ _ _)
  | array hinner hspaced hvalues ih =>
    refine .of_value (.array hinner hspaced hvalues) fun hcount hb _ h => ?_
    simp only [List.cons_append, List.append_assoc, List.nil_append, List.length_cons,
      List.length_append, List.length_nil] at h hcount
    simp only [skipValue, skipBlanks_rest hb (show isBlank '[' = false from rfl) h]
    exact skipElements_all hspaced hvalues ih hinner (by omega) (advance_rest _ _ _)
  | object hinner hspaced hvalues ih =>
    refine .of_value (.object hinner hspaced hvalues) fun hcount hb _ h => ?_
    simp only [List.cons_append, List.append_assoc, List.nil_append, List.length_cons,
      List.length_append, List.length_nil] at h hcount
    simp only [skipValue, skipBlanks_rest hb (show isBlank '\x7b' = false from rfl) h]
    exact skipMembers_all hspaced ih hinner (by omega) (advance_rest _ _ _)

theorem skipAnyValue_leaves {v blanks : List Char} (hv : Value v) (hb : Blank blanks)
    (hrest : Halts rest) (h : input.rest = blanks ++ (v ++ rest)) :
    Leaves input.skipAnyValue rest := by
  refine skipValue_leaves hv blanks ?_ hb hrest h
  simp only [h, List.length_append]
  omega

end ConfigInput

end LiveHighlight
