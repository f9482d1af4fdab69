/-! Half-open ranges of byte offsets. Offsets are natural numbers; `wordSize` bounds those that
fit a machine word, and `wrapWord` is the arithmetic past that bound. -/

namespace LiveHighlight

/-- The number of offsets a machine word can hold. -/
def wordSize : Nat := Nat.pow 2 64

/-- The greatest offset, which also stands for "no distance is known". -/
def maxWord : Nat := wordSize - 1

/-- The word a sum leaves when its carry is lost. -/
def wrapWord (n : Nat) : Nat := n % wordSize

/-- The offsets from `start` up to and without `stop`. A reversed range holds no offset. -/
structure ByteRange where
  start : Nat
  stop : Nat
deriving DecidableEq, Repr, Inhabited

namespace ByteRange

/-- A range that holds no offset. -/
def isEmpty (r : ByteRange) : Bool := r.stop ≤ r.start

/-- Whether an offset lies in the range. -/
def contains (r : ByteRange) (i : Nat) : Bool := r.start ≤ i && i < r.stop

/-- The smallest range around two ranges. -/
def hull (a b : ByteRange) : ByteRange := ⟨min a.start b.start, max a.stop b.stop⟩

/-- The smallest range around a range and, when there is one, another. -/
def hullWith (a : Option ByteRange) (b : ByteRange) : ByteRange :=
  match a with
  | some a => a.hull b
  | none => b

/-- The smallest range around all ranges of a list. -/
def hullOf : List ByteRange → Option ByteRange
  | [] => none
  | r :: rs => some (rs.foldl hull r)

end ByteRange

end LiveHighlight
