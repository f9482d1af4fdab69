import LiveHighlight.Decimal.Binary

/-! The fewest decimal digits that read back as the same floating-point number, and their text.
All numbers are multiplied by `10 ^ decimalShift`, which makes every finite one whole. -/

namespace LiveHighlight.Decimal

/-- No finite number has more decimals than this. -/
def decimalShift : Nat := 1100

/-- The decimal number `digits * 10 ^ (power - decimalShift)`. -/
structure Digits where
  digits : Nat
  power : Nat
deriving DecidableEq, Repr, Inhabited

/-- The scaled numbers around `value` that read back as it: those between `low` and `high`, the
ends among them exactly if `closed` is set. -/
structure Readback where
  low : Nat
  value : Nat
  high : Nat
  closed : Bool
deriving DecidableEq, Repr, Inhabited

namespace Readback

/-- Half a last place lies on either side, but below a power of two only a quarter of one. -/
def ofBinary (b : Binary) : Readback :=
  let quarter := Nat.pow 2 b.power * Nat.pow 10 decimalShift / (4 * Binary.denominator)
  let below := if b.mantissa = Nat.pow 2 52 ∧ b.power ≠ 0 then 1 else 2
  { low := (4 * b.mantissa - below) * quarter
    value := 4 * b.mantissa * quarter
    high := (4 * b.mantissa + 2) * quarter
    closed := b.mantissa % 2 = 0 }

def holds (r : Readback) (x : Nat) : Bool :=
  if r.closed then r.low ≤ x && x ≤ r.high else r.low < x && x < r.high

/-- The multiple of `step` that reads back, if one does: the nearer of the value's two neighbours,
a tie going to the even one. -/
def onGrid (r : Readback) (step : Nat) : Option Nat :=
  let n := r.value / step
  let down := n * step
  let up := (n + 1) * step
  match r.holds down, r.holds up with
  | true, true =>
    if 2 * r.value < down + up || (2 * r.value == down + up && n % 2 == 0) then some n
    else some (n + 1)
  | true, false => some n
  | false, true => some (n + 1)
  | false, false => none

/-- The first of the steps `10 ^ (last + k)`, for falling `k`, with a multiple that reads back. -/
def firstGrid (r : Readback) (last : Nat) : Nat → Digits
  | 0 => ⟨r.value / Nat.pow 10 last, last⟩
  | k + 1 =>
    match r.onGrid (Nat.pow 10 (last + k)) with
    | some n => ⟨n, last + k⟩
    | none => r.firstGrid last k

end Readback

/-- The greatest `k` at or below `bound` with `10 ^ k ≤ n`, or `0`. -/
def decimalLog (n : Nat) : (bound : Nat) → Nat
  | 0 => 0
  | k + 1 => if Nat.pow 10 (k + 1) ≤ n then k + 1 else decimalLog n k

/-- Closing zeros of the digits moved into the power, `count` of them at most. -/
def Digits.trim (d : Digits) : (count : Nat) → Digits
  | 0 => d
  | count + 1 =>
    if d.digits ≠ 0 ∧ d.digits % 10 = 0 then Digits.trim ⟨d.digits / 10, d.power + 1⟩ count else d

/-- The shortest digits of a positive number. Seventeen always read back. -/
def shortest (b : Binary) : Digits :=
  let r := Readback.ofBinary b
  let top := decimalLog r.value (2 * decimalShift)
  (r.firstGrid (top - 17) 18).trim 20

/-- How numbers are written: in positions while the decimal exponent is at least `least` and below
`bound`, and else with a signed exponent of at least `exponentWidth` digits. -/
structure FloatStyle where
  least : Int
  bound : Int
  exponentWidth : Nat
deriving DecidableEq, Repr, Inhabited

namespace FloatStyle

def zeros (n : Int) : List Char := List.replicate n.toNat '0'

/-- Digits in positions, with at least one before and one after the point. -/
def positional (digits : List Char) (exponent : Int) : List Char :=
  if exponent < 0 then '0' :: '.' :: (zeros (-exponent - 1) ++ digits)
  else
    let whole := exponent.toNat + 1
    let padded := digits ++ zeros (whole - digits.length)
    let rest := padded.drop whole
    padded.take whole ++ '.' :: (if rest.isEmpty then ['0'] else rest)

/-- One digit before the point, the others after it, and the exponent. -/
def scientific (style : FloatStyle) (digits : List Char) (exponent : Int) : List Char :=
  let rest := digits.drop 1
  let power := (toString exponent.natAbs).toList
  digits.take 1 ++ (if rest.isEmpty then [] else '.' :: rest) ++
    ['e', if exponent < 0 then '-' else '+'] ++ zeros (style.exponentWidth - power.length) ++ power

/-- The text of a finite number. -/
def render (style : FloatStyle) (x : Float) : String :=
  let b := Binary.ofFloat x
  let sign := if b.negative then "-" else ""
  if b.mantissa = 0 then sign ++ "0.0"
  else
    let d := shortest b
    let digits := (toString d.digits).toList
    let exponent : Int := Int.ofNat (d.power + digits.length) - 1 - decimalShift
    sign ++ String.ofList (if style.least ≤ exponent ∧ exponent < style.bound
      then positional digits exponent else style.scientific digits exponent)

end FloatStyle

end LiveHighlight.Decimal
