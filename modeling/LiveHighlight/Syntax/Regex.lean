/-! Regular expressions over characters, read from their usual notation. Matching gives all places
at which a match can end. -/

namespace LiveHighlight

/-- A set of characters by ranges, or what is outside of them. -/
structure CharSet where
  ranges : List (Char × Char)
  inverted : Bool := false
deriving DecidableEq, Repr, Inhabited

namespace CharSet

def holds (s : CharSet) (c : Char) : Bool :=
  (s.ranges.any fun (low, high) => low ≤ c && c ≤ high) != s.inverted

def digit : CharSet := ⟨[('0', '9')], false⟩

/-- The characters of words. -/
def word : CharSet := ⟨[('a', 'z'), ('A', 'Z'), ('0', '9'), ('_', '_')], false⟩

/-- The blank characters: space, tab, newline, vertical tab, form feed and carriage return. -/
def blank : CharSet := ⟨[(' ', ' '), ('\t', '\r')], false⟩

/-- Every character but a newline. -/
def anyInRow : CharSet := ⟨[('\n', '\n')], true⟩

end CharSet

/-- A regular expression. -/
inductive Regex
  | never
  | empty
  | one (set : CharSet)
  | both (first second : Regex)
  | either (left right : Regex)
  | many (body : Regex)
  | atStart
  | atEnd
deriving Repr, Inhabited

/-- A place in a text: the characters before it, counted, and those after it. -/
structure TextPlace where
  before : Nat
  rest : List Char

namespace Regex

/-- Places with those at the offset of an earlier one left out. -/
def distinct (places : List TextPlace) : List TextPlace :=
  places.foldr (fun p ps => if ps.any (·.before == p.before) then ps else p :: ps) []

/-- The places that any number of steps lead to, not more than there are characters; steps that stay
are left out. -/
def repeated (step : TextPlace → List TextPlace) : List Char → List TextPlace → List TextPlace
  | [], places => places
  | _ :: characters, places =>
    let next := distinct (places.flatMap fun p => (step p).filter (p.before < ·.before))
    if next.isEmpty then places else places ++ repeated step characters next

/-- The places at which a match that begins at a place can end. -/
def ends : Regex → TextPlace → List TextPlace
  | never, _ => []
  | empty, p => [p]
  | one set, p =>
    match p.rest with
    | c :: rest => if set.holds c then [⟨p.before + 1, rest⟩] else []
    | [] => []
  | both first second, p => distinct ((first.ends p).flatMap second.ends)
  | either left right, p => distinct (left.ends p ++ right.ends p)
  | many body, p => repeated body.ends p.rest [p]
  | atStart, p => if p.before = 0 then [p] else []
  | atEnd, p => if p.rest.isEmpty then [p] else []

/-- Whether some part of a text that begins at a place or after it matches. -/
def foundFrom (r : Regex) (before : Nat) : List Char → Bool
  | [] => !(r.ends ⟨before, []⟩).isEmpty
  | c :: rest => !(r.ends ⟨before, c :: rest⟩).isEmpty || foundFrom r (before + 1) rest

/-- Whether some part of a text matches. -/
def found (r : Regex) (text : List Char) : Bool := r.foundFrom 0 text

/-- The length of the longest match at the beginning of a text. -/
def longest (r : Regex) (text : List Char) : Option Nat :=
  ((r.ends ⟨0, text⟩).map (·.before)).max?

/-! ### Notation -/

/-- A given number of copies in a row. -/
def times (r : Regex) : Nat → Regex
  | 0 => empty
  | n + 1 => both r (times r n)

/-- From none up to a given number of copies in a row. -/
def upTo (r : Regex) : Nat → Regex
  | 0 => empty
  | n + 1 => either empty (both r (upTo r n))

/-- The set that an escaped letter stands for; other characters stand for themselves. -/
def escaped (c : Char) : CharSet :=
  if c = 'd' then .digit
  else if c = 'D' then { CharSet.digit with inverted := true }
  else if c = 'w' then .word
  else if c = 'W' then { CharSet.word with inverted := true }
  else if c = 's' then .blank
  else if c = 'S' then { CharSet.blank with inverted := true }
  else if c = 'n' then ⟨[('\n', '\n')], false⟩
  else if c = 't' then ⟨[('\t', '\t')], false⟩
  else if c = 'r' then ⟨[('\r', '\r')], false⟩
  else ⟨[(c, c)], false⟩

/-- The members of a set in brackets, up to and with the closing bracket. -/
def readSet (ranges : List (Char × Char)) : List Char → Option (List (Char × Char) × List Char)
  | [] => none
  | ']' :: rest => some (ranges, rest)
  | '\\' :: c :: rest => readSet ((escaped c).ranges ++ ranges) rest
  | a :: '-' :: ']' :: rest => some (('-', '-') :: (a, a) :: ranges, rest)
  | a :: '-' :: b :: rest => readSet ((a, b) :: ranges) rest
  | a :: rest => readSet ((a, a) :: ranges) rest

/-- Digits as a number. -/
def readCount (text : List Char) : Nat × List Char :=
  ((text.takeWhile Char.isDigit).foldl (fun n c => n * 10 + (c.toNat - '0'.toNat)) 0,
    text.dropWhile Char.isDigit)

/-- How often something may be repeated, after the brace that opens the counts. -/
def readCounts (r : Regex) (text : List Char) : Option (Regex × List Char) :=
  let (low, rest) := readCount text
  match rest with
  | '\x7d' :: rest => some (r.times low, rest)
  | ',' :: '\x7d' :: rest => some (both (r.times low) (many r), rest)
  | ',' :: rest =>
    let (high, rest) := readCount rest
    match rest with
    | '\x7d' :: rest => some (both (r.times low) (r.upTo (high - low)), rest)
    | _ => none
  | _ => none

/-- Signs of repetition behind something, `count` of them at most. -/
def readRepeats (r : Regex) : Nat → List Char → Option (Regex × List Char)
  | 0, text => some (r, text)
  | count + 1, text =>
    match text with
    | '*' :: rest => readRepeats (many r) count rest
    | '+' :: rest => readRepeats (both r (many r)) count rest
    | '?' :: rest => readRepeats (either empty r) count rest
    | '\x7b' :: rest => do
      let (r, rest) ← readCounts r rest
      readRepeats r count rest
    | _ => some (r, text)

mutual

/-- Alternatives, up to the end or a closing parenthesis. The count bounds the steps. -/
def readEither : Nat → List Char → Option (Regex × List Char)
  | 0, _ => none
  | count + 1, text => do
    let (r, rest) ← readBoth empty count text
    match rest with
    | '|' :: rest =>
      let (s, rest) ← readEither count rest
      return (either r s, rest)
    | _ => return (r, rest)

/-- Parts in a row, after those already read. -/
def readBoth (before : Regex) : Nat → List Char → Option (Regex × List Char)
  | 0, _ => none
  | count + 1, text =>
    match text with
    | [] => some (before, text)
    | '|' :: _ => some (before, text)
    | ')' :: _ => some (before, text)
    | _ => do
      let (r, rest) ← readPart count text
      let (r, rest) ← readRepeats r rest.length rest
      readBoth (both before r) count rest

/-- One part without its signs of repetition. -/
def readPart : Nat → List Char → Option (Regex × List Char)
  | 0, _ => none
  | count + 1, text =>
    match text with
    | [] => none
    | '^' :: rest => some (atStart, rest)
    | '$' :: rest => some (atEnd, rest)
    | '.' :: rest => some (one .anyInRow, rest)
    | '\\' :: c :: rest => some (one (escaped c), rest)
    | '[' :: '^' :: rest => (readSet [] rest).map fun (ranges, rest) => (one ⟨ranges, true⟩, rest)
    | '[' :: rest => (readSet [] rest).map fun (ranges, rest) => (one ⟨ranges, false⟩, rest)
    | '(' :: '?' :: ':' :: rest => readGroup count rest
    | '(' :: rest => readGroup count rest
    | c :: rest => some (one ⟨[(c, c)], false⟩, rest)

/-- A group after its opening parenthesis. -/
def readGroup : Nat → List Char → Option (Regex × List Char)
  | 0, _ => none
  | count + 1, text => do
    let (r, rest) ← readEither count text
    match rest with
    | ')' :: rest => return (r, rest)
    | _ => none

end

/-- The expression that a text writes. -/
def ofString? (text : String) : Option Regex :=
  match readEither (6 * text.length + 6) text.toList with
  | some (r, []) => some r
  | _ => none

/-- The expression that a text writes; one that matches nothing if the text writes none. -/
def ofString (text : String) : Regex := (ofString? text).getD never

end Regex

end LiveHighlight
