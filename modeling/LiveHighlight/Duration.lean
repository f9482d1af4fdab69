/-! Spans of time in nanoseconds, and their short text such as `1.5ms`. -/

namespace LiveHighlight

/-- A length of time. -/
structure Duration where
  nanos : Nat
deriving DecidableEq, Repr, Inhabited

namespace Duration

/-- No time at all. -/
def zero : Duration := ⟨0⟩

def ofMicros (n : Nat) : Duration := ⟨n * 1000⟩

/-- The whole seconds of a duration. -/
def seconds (d : Duration) : Nat := d.nanos / Nat.pow 10 9

/-- The nanoseconds past the last whole second. -/
def subsecond (d : Duration) : Nat := d.nanos % Nat.pow 10 9

/-- The digits of `n`, a number below `10 ^ places`, as decimals without closing zeros. -/
def decimals (places n : Nat) : String :=
  let digits := (toString (Nat.pow 10 places + n)).toList.drop 1
  String.ofList (digits.reverse.dropWhile (· == '0')).reverse

/-- `n` units of `10 ^ places` nanoseconds each, with what is left over as decimals. -/
def inUnit (n places : Nat) (unit : String) : String :=
  let rest := decimals places (n % Nat.pow 10 places)
  toString (n / Nat.pow 10 places) ++ (if rest.isEmpty then "" else "." ++ rest) ++ unit

/-- The duration in the largest unit that it reaches, exactly. -/
def render (d : Duration) : String :=
  if d.nanos ≥ Nat.pow 10 9 then inUnit d.nanos 9 "s"
  else if d.nanos ≥ Nat.pow 10 6 then inUnit d.nanos 6 "ms"
  else if d.nanos ≥ Nat.pow 10 3 then inUnit d.nanos 3 "µs"
  else inUnit d.nanos 0 "ns"

end Duration

end LiveHighlight
