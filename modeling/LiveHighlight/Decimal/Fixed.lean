import LiveHighlight.Decimal.Binary

/-! Numbers written with a fixed count of decimal places, rounded to the nearest such number with
ties to the even neighbour. -/

namespace LiveHighlight.Decimal

/-- `num / den` rounded to the nearest whole number, a tie going to the even one. -/
def roundHalfEven (num den : Nat) : Nat :=
  let q := num / den
  let r := num % den
  if 2 * r > den || (2 * r == den && q % 2 == 1) then q + 1 else q

/-- The digits of `n` behind as many zeros as fill `width` places. -/
def padZeros (width n : Nat) : String :=
  let digits := toString n
  String.ofList (List.replicate (width - digits.length) '0') ++ digits

/-- The ratio `num / den` with `places` decimals. -/
def fixedRatio (places num den : Nat) : String :=
  let n := roundHalfEven (num * Nat.pow 10 places) den
  toString (n / Nat.pow 10 places) ++ "." ++ padZeros places (n % Nat.pow 10 places)

/-- A finite number with `places` decimals. -/
def fixed (places : Nat) (x : Float) : String :=
  let b := Binary.ofFloat x
  (if b.negative then "-" else "") ++ fixedRatio places b.numerator Binary.denominator

end LiveHighlight.Decimal
