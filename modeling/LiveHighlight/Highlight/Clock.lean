import LiveHighlight.Duration

/-! What a clock shows while an operation runs. Time enters the library only as such readings, so
that all it does is a function of its inputs. -/

namespace LiveHighlight

/-- The readings of a clock during one operation. -/
structure Clock where
  /-- How long a parse of a text takes, by the bytes of the text. -/
  parsing : Nat → Duration
  /-- The time since a query began, by the run of the query, which is its first or the one over an
  extended range, and by the number of captures seen. -/
  querying : (run seen : Nat) → Duration

/-- A clock by which a parse takes a nanosecond for each byte and queries take no time. -/
def Clock.steady : Clock where
  parsing bytes := ⟨bytes⟩
  querying _ _ := .zero

end LiveHighlight
