/-! Texts as lists of characters, measured in the bytes of their UTF-8 form. Rows are separated by
newline characters only. -/

namespace LiveHighlight.Utf8

/-- The number of bytes of a text. -/
def byteLength : List Char → Nat
  | [] => 0
  | c :: cs => c.utf8Size + byteLength cs

/-- Whether an offset lies between two characters of a text, or at one of its ends. -/
def isBoundary : List Char → Nat → Bool
  | _, 0 => true
  | [], _ + 1 => false
  | c :: cs, n + 1 => if n + 1 < c.utf8Size then false else isBoundary cs (n + 1 - c.utf8Size)

/-- The longest beginning of a text that has at most `n` bytes. -/
def takeBytes : List Char → Nat → List Char
  | [], _ => []
  | c :: cs, n => if c.utf8Size ≤ n then c :: takeBytes cs (n - c.utf8Size) else []

/-- What `takeBytes` leaves of a text. -/
def dropBytes : List Char → Nat → List Char
  | [], _ => []
  | c :: cs, n => if c.utf8Size ≤ n then dropBytes cs (n - c.utf8Size) else c :: cs

/-- The characters of a text between two offsets. -/
def slice (cs : List Char) (start stop : Nat) : List Char :=
  takeBytes (dropBytes cs start) (stop - start)

/-- The number of newlines in a text. -/
def newlines : List Char → Nat
  | [] => 0
  | c :: cs => (if c = '\n' then 1 else 0) + newlines cs

/-- The number of newlines that begin before an offset: the row of that offset. -/
def rowAt : List Char → Nat → Nat
  | [], _ => 0
  | _, 0 => 0
  | c :: cs, n + 1 => (if c = '\n' then 1 else 0) + rowAt cs (n + 1 - c.utf8Size)

/-- The offset at which a row begins; the length of the text for a row past the last one. -/
def rowStart : List Char → Nat → Nat
  | _, 0 => 0
  | [], _ + 1 => 0
  | c :: cs, row + 1 => c.utf8Size + rowStart cs (if c = '\n' then row else row + 1)

/-- The bytes after the last newline, or the whole length when there is none. -/
def lastRowLength (cs : List Char) : Nat := byteLength cs - rowStart cs (newlines cs)

end LiveHighlight.Utf8
