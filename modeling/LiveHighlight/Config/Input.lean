import LiveHighlight.Config.Failure

/-! The unread part of a configuration document, with the place it begins at, and the reading of
blanks, fixed words, texts and numbers from it. -/

namespace LiveHighlight

/-- What is left to read, the row it begins in and the bytes of that row before it. -/
structure ConfigInput where
  rest : List Char
  row : Nat
  column : Nat

namespace ConfigInput

/-- A whole document. -/
def ofString (text : String) : ConfigInput := ⟨text.toList, 1, 0⟩

/-- The place after a character. -/
def advance (input : ConfigInput) (c : Char) (rest : List Char) : ConfigInput :=
  if c = '\n' then ⟨rest, input.row + 1, 0⟩ else ⟨rest, input.row, input.column + c.utf8Size⟩

/-- A problem at the place reading has come to. -/
def fail {α : Type} (input : ConfigInput) (problem : ConfigProblem) : Except ConfigFailure α :=
  .error ⟨problem, input.row, input.column⟩

/-- A problem with the byte that comes next: its place is the one after that byte. -/
def failNext {α : Type} (input : ConfigInput) (problem : ConfigProblem) :
    Except ConfigFailure α :=
  match input.rest with
  | [] => input.fail problem
  | c :: _ =>
    if c = '\n' then .error ⟨problem, input.row + 1, 0⟩
    else .error ⟨problem, input.row, input.column + 1⟩

/-- The input past its next character. -/
def tail (input : ConfigInput) : ConfigInput :=
  match input.rest with
  | [] => input
  | c :: rest => input.advance c rest

/-- The blanks that may stand between the parts of a document. -/
def isBlank (c : Char) : Bool := c = ' ' || c = '\n' || c = '\t' || c = '\r'

/-- Blanks read from characters that begin at the place of `input`. -/
def skipBlanksFrom (input : ConfigInput) : List Char → ConfigInput
  | [] => ⟨[], input.row, input.column⟩
  | c :: rest =>
    if isBlank c then skipBlanksFrom (input.advance c rest) rest
    else ⟨c :: rest, input.row, input.column⟩

def skipBlanks (input : ConfigInput) : ConfigInput := input.skipBlanksFrom input.rest

/-- The fixed characters of a word such as `true`. -/
def word (input : ConfigInput) : List Char → Except ConfigFailure ConfigInput
  | [] => .ok input
  | expected :: more =>
    match input.rest with
    | [] => input.fail .endInValue
    | c :: rest =>
      if c = expected then word (input.advance c rest) more else input.failNext .expectedIdent

/-! ### Texts -/

/-- The value of a hexadecimal digit. -/
def hexValue (c : Char) : Option Nat :=
  if '0' ≤ c ∧ c ≤ '9' then some (c.toNat - '0'.toNat)
  else if 'a' ≤ c ∧ c ≤ 'f' then some (c.toNat - 'a'.toNat + 10)
  else if 'A' ≤ c ∧ c ≤ 'F' then some (c.toNat - 'A'.toNat + 10)
  else none

/-- The number that four hexadecimal digits write. -/
def hexNumber (a b c d : Char) : Option Nat := do
  return (((← hexValue a) * 16 + (← hexValue b)) * 16 + (← hexValue c)) * 16 + (← hexValue d)

/-- The place `count` bytes on, or the end of the input if that comes before, with the bytes that
were missing. -/
def ahead (input : ConfigInput) : List Char → (count : Nat) → ConfigInput × Nat
  | [], count => (input, count)
  | c :: rest, count =>
    if c.utf8Size ≤ count then (input.advance c rest).ahead rest (count - c.utf8Size)
    else (⟨c :: rest, input.row, input.column + count⟩, 0)

/-- The four digits of a hexadecimal escape. They are four bytes, whatever they hold. -/
def hexEscape (input : ConfigInput) : Except ConfigFailure (Nat × ConfigInput) :=
  let (after, missing) := input.ahead input.rest 4
  if missing ≠ 0 then after.fail .endInString
  else
    match input.rest with
    | a :: b :: c :: d :: _ =>
      match hexNumber a b c d with
      | some n => .ok (n, after)
      | none => after.fail .invalidEscape
    | _ => after.fail .invalidEscape

/-- The escapes that stand for one fixed character. -/
def simpleEscape (c : Char) : Option Char :=
  if c = '"' then some '"'
  else if c = '\\' then some '\\'
  else if c = '/' then some '/'
  else if c = 'b' then some '\x08'
  else if c = 'f' then some '\x0c'
  else if c = 'n' then some '\n'
  else if c = 'r' then some '\r'
  else if c = 't' then some '\t'
  else none

/-- A character that must come next inside a text. -/
def require (input : ConfigInput) (expected : Char) : Except ConfigFailure ConfigInput :=
  match input.rest with
  | [] => input.fail .endInString
  | c :: rest =>
    if c = expected then .ok (input.advance c rest) else input.failNext .unfinishedSurrogate

/-- The character of a hexadecimal escape; two surrogates in a row make one character. -/
def unicodeEscape (input : ConfigInput) : Except ConfigFailure (Char × ConfigInput) := do
  let (n, input) ← input.hexEscape
  if 0xdc00 ≤ n ∧ n ≤ 0xdfff then input.fail .loneSurrogate
  else if n < 0xd800 ∨ 0xdbff < n then return (Char.ofNat n, input)
  else
    let input ← input.require '\\'
    let input ← input.require 'u'
    let (low, input) ← input.hexEscape
    if low < 0xdc00 ∨ 0xdfff < low then input.fail .loneSurrogate
    else return (Char.ofNat (0x10000 + (n - 0xd800) * 0x400 + (low - 0xdc00)), input)

/-- What follows a backslash. -/
def escape (input : ConfigInput) : Except ConfigFailure (Char × ConfigInput) :=
  match input.rest with
  | [] => input.fail .endInString
  | c :: rest =>
    if c = 'u' then unicodeEscape (input.advance c rest)
    else
      match simpleEscape c with
      | some plain => .ok (plain, input.advance c rest)
      | none => input.failNext .invalidEscape

/-- The characters of a text after its opening quote, up to and with the closing one. The count
bounds the characters to read; `found` holds those read, the last one first. -/
def textFrom (found : List Char) : Nat → ConfigInput → Except ConfigFailure (String × ConfigInput)
  | 0, input => input.fail .endInString
  | count + 1, input =>
    match input.rest with
    | [] => input.fail .endInString
    | c :: rest =>
      if c = '"' then .ok (String.ofList found.reverse, input.advance c rest)
      else if c = '\\' then do
        let (plain, input) ← escape (input.advance c rest)
        textFrom (plain :: found) count input
      else if c.toNat < 0x20 then input.failNext .controlCharacter
      else textFrom (c :: found) count (input.advance c rest)

/-- A text after its opening quote. -/
def text (input : ConfigInput) : Except ConfigFailure (String × ConfigInput) :=
  textFrom [] (input.rest.length + 1) input

/-- What follows a backslash in a text nobody reads: lone surrogates are let through. -/
def skipEscape (input : ConfigInput) : Except ConfigFailure ConfigInput :=
  match input.rest with
  | [] => input.fail .endInString
  | c :: rest =>
    if c = 'u' then do
      let (_, input) ← hexEscape (input.advance c rest)
      return input
    else if (simpleEscape c).isSome then .ok (input.advance c rest)
    else input.failNext .invalidEscape

/-- A text nobody reads, after its opening quote. The count bounds the characters to read. -/
def skipTextFrom : Nat → ConfigInput → Except ConfigFailure ConfigInput
  | 0, input => input.fail .endInString
  | count + 1, input =>
    match input.rest with
    | [] => input.fail .endInString
    | c :: rest =>
      if c = '"' then .ok (input.advance c rest)
      else if c = '\\' then do
        let input ← skipEscape (input.advance c rest)
        skipTextFrom count input
      else if c.toNat < 0x20 then input.fail .controlCharacter
      else skipTextFrom count (input.advance c rest)

def skipText (input : ConfigInput) : Except ConfigFailure ConfigInput :=
  skipTextFrom (input.rest.length + 1) input

/-! ### Numbers -/

def isDigit (c : Char) : Bool := '0' ≤ c && c ≤ '9'

/-- The digits that come next. -/
def digits (input : ConfigInput) : List Char := input.rest.takeWhile isDigit

/-- The input past its next digits. -/
def skipDigits (input : ConfigInput) : ConfigInput :=
  ⟨input.rest.dropWhile isDigit, input.row, input.column + input.digits.length⟩

/-- Whether the next character is one of two. -/
def nextIs (input : ConfigInput) (a b : Char) : Bool :=
  match input.rest with
  | c :: _ => c = a || c = b
  | [] => false

/-- Leading digits folded into a number as long as it fits a word, and how many did not fit. -/
def accumulate (n : Nat) : List Char → Nat × Nat
  | [] => (n, 0)
  | c :: cs =>
    let next := n * 10 + (c.toNat - '0'.toNat)
    if next < Nat.pow 2 64 then accumulate next cs else (n, cs.length + 1)

/-- A number read from a document. -/
inductive Number
  | whole (value : Nat)
  | negative (value : Int)
  | fraction (value : Float)

def Number.found : Number → FoundValue
  | whole n => .integer n
  | negative n => .integer n
  | fraction x => .number x

/-- `x` divided or multiplied by powers of ten until the power is used up; `none` past the
greatest number. Numbers too small for the format end as zero after a few steps. -/
def scale (x : Float) : (steps : Nat) → (power : Int) → Option Float
  | 0, _ => some x
  | steps + 1, power =>
    if power.natAbs ≤ 308 then
      if power ≥ 0 then
        let y := x * Float.ofScientific 1 false power.natAbs
        if y.isInf then none else some y
      else some (x / Float.ofScientific 1 false power.natAbs)
    else if x == 0.0 then some x
    else if power ≥ 0 then none
    else scale (x / Float.ofScientific 1 false 308) steps (power + 308)

/-- The number `n * 10 ^ power`. -/
def fractionOf (negative : Bool) (n : Nat) (power : Int) (input : ConfigInput) :
    Except ConfigFailure (Number × ConfigInput) :=
  match scale n.toUInt64.toFloat 8 power with
  | some x => .ok (.fraction (if negative then -x else x), input)
  | none => input.fail .numberOutOfRange

/-- Powers past this bound are cut to it. -/
def powerBound : Int := Nat.pow 2 31 - 1

/-- The digits of a power of ten, until they pass the bound. -/
def powerDigits (input : ConfigInput) (n : Nat) : List Char → Except ConfigInput Nat
  | [] => .ok n
  | c :: cs =>
    let next := n * 10 + (c.toNat - '0'.toNat)
    let after := input.advance c cs
    if Int.ofNat next ≤ powerBound then powerDigits after next cs else .error after

/-- A number's power of ten, which begins with `e`. -/
def powerPart (negative : Bool) (n : Nat) (power : Int) (input : ConfigInput) :
    Except ConfigFailure (Number × ConfigInput) :=
  let input := input.tail
  let below := input.nextIs '-' '-'
  let input := if input.nextIs '+' '-' then input.tail else input
  match input.rest with
  | [] => input.fail .endInValue
  | c :: _ =>
    if !isDigit c then input.failNext .invalidNumber
    else
      match powerDigits input 0 input.digits with
      | .ok e =>
        let e : Int := if below then -Int.ofNat e else Int.ofNat e
        fractionOf negative n (max (-powerBound - 1) (min powerBound (power + e))) input.skipDigits
      | .error passed =>
        if n ≠ 0 ∧ !below then passed.fail .numberOutOfRange
        else .ok (.fraction (if negative then -0.0 else 0.0), input.skipDigits)

/-- A number's decimals, which begin with a point. -/
def decimalPart (negative : Bool) (n : Nat) (power : Int) (input : ConfigInput) :
    Except ConfigFailure (Number × ConfigInput) :=
  let input := input.tail
  let found := input.digits
  if found.isEmpty then
    if input.rest.isEmpty then input.fail .endInValue else input.failNext .invalidNumber
  else
    let (n, lost) := accumulate n found
    let power := power - Int.ofNat (found.length - lost)
    let input := input.skipDigits
    if input.nextIs 'e' 'E' then powerPart negative n power input
    else fractionOf negative n power input

/-- What a whole number of `n` with `lost` more digits is, unless decimals or a power follow. -/
def wholePart (negative : Bool) (n lost : Nat) (input : ConfigInput) :
    Except ConfigFailure (Number × ConfigInput) :=
  if input.nextIs '.' '.' then decimalPart negative n lost input
  else if input.nextIs 'e' 'E' then powerPart negative n lost input
  else if lost ≠ 0 then fractionOf negative n lost input
  else if !negative then .ok (.whole n, input)
  else if n = 0 ∨ Nat.pow 2 63 < n then .ok (.fraction (-n.toUInt64.toFloat), input)
  else .ok (.negative (-Int.ofNat n), input)

/-- A number after its sign. No digit may follow a leading zero. -/
def number (negative : Bool) (input : ConfigInput) : Except ConfigFailure (Number × ConfigInput) :=
  match input.rest with
  | [] => input.fail .endInValue
  | c :: rest =>
    if c = '0' then
      let input := input.advance c rest
      if input.digits.isEmpty then wholePart negative 0 0 input else input.failNext .invalidNumber
    else if isDigit c then
      let (n, lost) := accumulate 0 input.digits
      wholePart negative n lost input.skipDigits
    else input.failNext .invalidNumber

/-- A number's power of ten that nobody reads, which begins with `e`. -/
def skipPower (input : ConfigInput) : Except ConfigFailure ConfigInput :=
  let input := input.tail
  let input := if input.nextIs '+' '-' then input.tail else input
  if input.digits.isEmpty then input.failNext .invalidNumber else .ok input.skipDigits

/-- A number nobody reads, after its sign. -/
def skipNumber (input : ConfigInput) : Except ConfigFailure ConfigInput :=
  match input.rest with
  | [] => input.fail .invalidNumber
  | c :: rest =>
    if !isDigit c then input.failNext .invalidNumber
    else
      let whole := if c = '0' then input.advance c rest else input.skipDigits
      if !whole.digits.isEmpty then whole.failNext .invalidNumber
      else if whole.nextIs '.' '.' then
        let point := whole.tail
        if point.digits.isEmpty then point.failNext .invalidNumber
        else if point.skipDigits.nextIs 'e' 'E' then point.skipDigits.skipPower
        else .ok point.skipDigits
      else if whole.nextIs 'e' 'E' then whole.skipPower
      else .ok whole

end ConfigInput

end LiveHighlight
