import LiveHighlight.Config.Reader
import Mathlib.Data.List.Basic

/-! The texts that configuration documents are made of, without regard to how they are read: blanks,
digits, texts between quotes, numbers and values. Values nest to any depth. -/

namespace LiveHighlight.ConfigText

/-- Characters that may stand between the parts of a document. -/
def Blank (cs : List Char) : Prop := ∀ c ∈ cs, c ∈ [' ', '\t', '\n', '\r']

instance (cs : List Char) : Decidable (Blank cs) :=
  List.decidableBAll (· ∈ [' ', '\t', '\n', '\r']) cs

theorem Blank.nil : Blank [] := List.forall_mem_nil _

/-! ### Texts between quotes -/

/-- A hexadecimal digit, in lower or upper case. -/
def HexDigit (c : Char) (value : Nat) : Prop :=
  "0123456789abcdef".toList[value]? = some c ∨ "0123456789ABCDEF".toList[value]? = some c

/-- Four hexadecimal digits. -/
inductive HexUnit : List Char → Nat → Prop
  | digits {a b c d : Char} {i j k l : Nat} : HexDigit a i → HexDigit b j → HexDigit c k →
      HexDigit d l → HexUnit [a, b, c, d] (((i * 16 + j) * 16 + k) * 16 + l)

/-- The characters that stand for others behind a backslash. -/
def shortEscapes : List (Char × Char) :=
  [('"', '"'), ('\\', '\\'), ('/', '/'), ('b', '\x08'), ('f', '\x0c'), ('n', '\n'), ('r', '\r'),
    ('t', '\t')]

/-- Characters that need no escape. -/
def Plain (c : Char) : Prop := c ≠ '"' ∧ c ≠ '\\' ∧ 0x20 ≤ c.toNat

instance (c : Char) : Decidable (Plain c) :=
  inferInstanceAs (Decidable (c ≠ '"' ∧ c ≠ '\\' ∧ 0x20 ≤ c.toNat))

/-- Characters as they are written between quotes. Those past sixteen bits may be written as two
units, the upper bits in the first one. -/
inductive Writes : List Char → List Char → Prop
  | nil : Writes [] []
  | plain {c : Char} {cs written : List Char} : Plain c → Writes cs written →
      Writes (c :: cs) (c :: written)
  | short {e c : Char} {cs written : List Char} : (e, c) ∈ shortEscapes → Writes cs written →
      Writes (c :: cs) ('\\' :: e :: written)
  | unit {c : Char} {digits cs written : List Char} : HexUnit digits c.toNat →
      Writes cs written → Writes (c :: cs) ('\\' :: 'u' :: digits ++ written)
  | pair {c : Char} {high low cs written : List Char} : 0x10000 ≤ c.toNat →
      HexUnit high (0xd800 + (c.toNat - 0x10000) / 0x400) →
      HexUnit low (0xdc00 + (c.toNat - 0x10000) % 0x400) → Writes cs written →
      Writes (c :: cs) ('\\' :: 'u' :: high ++ '\\' :: 'u' :: low ++ written)

/-- What may stand between quotes, whether or not its units are characters. -/
inductive Quotable : List Char → Prop
  | nil : Quotable []
  | plain {c : Char} {written : List Char} : Plain c → Quotable written → Quotable (c :: written)
  | short {e c : Char} {written : List Char} : (e, c) ∈ shortEscapes → Quotable written →
      Quotable ('\\' :: e :: written)
  | unit {n : Nat} {digits written : List Char} : HexUnit digits n → Quotable written →
      Quotable ('\\' :: 'u' :: digits ++ written)

/-- What stands between quotes is legible if it writes characters: each half of a pair of units
stands beside the other half. -/
def Legible (written : List Char) : Prop := ∃ cs, Writes cs written

theorem HexDigit.lt {c : Char} {value : Nat} (h : HexDigit c value) : value < 16 := by
  rcases h with h | h
  · obtain ⟨hlt, -⟩ := List.getElem?_eq_some_iff.mp h
    exact hlt
  · obtain ⟨hlt, -⟩ := List.getElem?_eq_some_iff.mp h
    exact hlt

theorem HexUnit.lt {digits : List Char} {n : Nat} (h : HexUnit digits n) : n < 0x10000 := by
  cases h with
  | digits ha hb hc hd =>
    have hi := ha.lt
    have hj := hb.lt
    have hk := hc.lt
    have hl := hd.lt
    omega

namespace Legible

variable {written : List Char}

theorem nil : Legible [] := ⟨[], .nil⟩

theorem plain {c : Char} (hc : Plain c) (h : Legible written) : Legible (c :: written) := by
  obtain ⟨cs, hcs⟩ := h
  exact ⟨c :: cs, .plain hc hcs⟩

theorem short {e c : Char} (he : (e, c) ∈ shortEscapes) (h : Legible written) :
    Legible ('\\' :: e :: written) := by
  obtain ⟨cs, hcs⟩ := h
  exact ⟨c :: cs, .short he hcs⟩

end Legible

/-! ### Numbers -/

/-- Decimal digits, at least one. -/
def Digits (ds : List Char) : Prop := ds ≠ [] ∧ ∀ c ∈ ds, c.isDigit = true

theorem Digits.head {ds : List Char} (h : Digits ds) :
    ∃ c more, ds = c :: more ∧ c.isDigit = true := by
  cases ds with
  | nil => exact absurd rfl h.1
  | cons c more => exact ⟨c, more, rfl, h.2 c List.mem_cons_self⟩

/-- A whole number without a sign. Zero is a single digit and no other number begins with one. -/
def Whole (ds : List Char) : Prop := Digits ds ∧ (ds.head? = some '0' → ds = ['0'])

/-- A number's decimals, if it has any. -/
inductive Decimals : List Char → Prop
  | none : Decimals []
  | some {ds : List Char} : Digits ds → Decimals ('.' :: ds)

/-- A number's power of ten, if it has one. -/
inductive Power : List Char → Prop
  | none : Power []
  | some {e : Char} {sign ds : List Char} : e = 'e' ∨ e = 'E' → sign ∈ [[], ['+'], ['-']] →
      Digits ds → Power (e :: sign ++ ds)

/-- A number, with or without a sign, decimals and a power of ten. -/
inductive Number : List Char → Prop
  | parts {sign whole decimals power : List Char} : sign ∈ [[], ['-']] → Whole whole →
      Decimals decimals → Power power → Number (sign ++ whole ++ decimals ++ power)

/-! ### Values -/

/-- A value with the blanks around it. -/
structure Padded where
  before : List Char
  value : List Char
  after : List Char

namespace Padded

def text (p : Padded) : List Char := p.before ++ p.value ++ p.after

structure Spaced (p : Padded) : Prop where
  before : Blank p.before
  after : Blank p.after

end Padded

/-- A member of an object: what stands between the quotes of its key, the blanks around the quotes,
and its value. -/
structure Member where
  before : List Char
  key : List Char
  gap : List Char
  content : Padded

namespace Member

def text (m : Member) : List Char :=
  m.before ++ '"' :: m.key ++ '"' :: m.gap ++ ':' :: m.content.text

structure Spaced (m : Member) : Prop where
  before : Blank m.before
  gap : Blank m.gap
  content : m.content.Spaced

theorem text_append (m : Member) (tail : List Char) : m.text ++ tail =
    m.before ++ '"' :: (m.key ++ '"' :: (m.gap ++ ':' :: (m.content.text ++ tail))) := by
  simp only [text, List.append_assoc, List.cons_append]

/-- A member is longer than its value, by its quotes and its colon at least. -/
theorem value_length_le (m : Member) : m.content.value.length + 3 ≤ m.text.length := by
  simp only [text, Padded.text, List.length_append, List.length_cons]
  omega

end Member

/-- Texts with commas between them, or some blanks if there are none. -/
def separated (blanks : List Char) : List (List Char) → List Char
  | [] => blanks
  | texts => [','].intercalate texts

/-- Texts with a comma before each. -/
def commas (texts : List (List Char)) : List Char := texts.flatMap (',' :: ·)

theorem commas_cons (t : List Char) (texts : List (List Char)) :
    commas (t :: texts) = ',' :: (t ++ commas texts) := rfl

theorem separated_cons (blanks t : List Char) (texts : List (List Char)) :
    separated blanks (t :: texts) = t ++ commas texts := by
  have hall : ∀ t, [','].intercalate (t :: texts) = t ++ commas texts := by
    induction texts with
    | nil =>
      intro t
      rw [List.intercalate_singleton, commas, List.flatMap_nil, List.append_nil]
    | cons t' texts ih =>
      intro t
      rw [List.intercalate_cons_cons, ih, List.append_assoc]
      rfl
  exact hall t

/-- There are no more members than characters. -/
theorem length_le_separated (blanks : List Char) (ms : List Member) :
    ms.length ≤ (separated blanks (ms.map Member.text)).length := by
  have hcommas : ∀ ms : List Member, ms.length ≤ (commas (ms.map Member.text)).length := by
    intro ms
    induction ms with
    | nil => exact Nat.zero_le _
    | cons m ms ih =>
      simp only [List.map_cons, commas_cons, List.length_cons, List.length_append]
      omega
  cases ms with
  | nil => exact Nat.zero_le _
  | cons m ms =>
    have hlength := m.value_length_le
    have hmore := hcommas ms
    simp only [List.map_cons, separated_cons, List.length_cons, List.length_append]
    omega

/-- The values that a document may hold. -/
inductive Value : List Char → Prop
  | word {w : String} : w ∈ ["null", "true", "false"] → Value w.toList
  | number {cs : List Char} : Number cs → Value cs
  | text {cs : List Char} : Quotable cs → Value ('"' :: cs ++ ['"'])
  | array {blanks : List Char} {items : List Padded} : Blank blanks →
      (∀ p ∈ items, p.Spaced) → (∀ p ∈ items, Value p.value) →
      Value ('[' :: separated blanks (items.map Padded.text) ++ [']'])
  | object {blanks : List Char} {ms : List Member} : Blank blanks →
      (∀ m ∈ ms, m.Spaced ∧ Quotable m.key) → (∀ m ∈ ms, Value m.content.value) →
      Value ('\x7b' :: separated blanks (ms.map Member.text) ++ ['\x7d'])

end LiveHighlight.ConfigText
