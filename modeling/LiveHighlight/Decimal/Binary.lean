/-! Finite floating-point numbers taken apart into a sign, a whole mantissa and a power of two. -/

namespace LiveHighlight.Decimal

/-- The number `mantissa * 2 ^ (power - 1074)`, negated when `negative` is set. -/
structure Binary where
  negative : Bool
  mantissa : Nat
  power : Nat
deriving DecidableEq, Repr, Inhabited

namespace Binary

/-- The parts of a finite number. -/
def ofFloat (x : Float) : Binary :=
  let bits := x.toBits.toNat
  let fraction := bits % Nat.pow 2 52
  let exponent := bits / Nat.pow 2 52 % Nat.pow 2 11
  if exponent = 0 then ⟨bits ≥ Nat.pow 2 63, fraction, 0⟩
  else ⟨bits ≥ Nat.pow 2 63, Nat.pow 2 52 + fraction, exponent - 1⟩

/-- The magnitude is `numerator / denominator`. -/
def numerator (b : Binary) : Nat := b.mantissa * Nat.pow 2 b.power

/-- The common denominator of all numbers in this form. -/
def denominator : Nat := Nat.pow 2 1074

end Binary

end LiveHighlight.Decimal
