import LiveHighlight.ByteRange
import LiveHighlight.Text.Edit

/-! What highlighting needs of a parser and its query language. Everything past this point is
stated over an engine, so that it holds whatever the grammars are. -/

namespace LiveHighlight

/-- A node reported by a query: its bytes, the index of the capture's name, and the pattern. -/
structure QueryCapture where
  range : ByteRange
  index : Nat
  pattern : Nat
deriving DecidableEq, Repr, Inhabited

/-- A parser with its query language. -/
structure SyntaxEngine where
  /-- Grammars that texts are parsed with. -/
  Language : Type
  /-- Parsed texts. -/
  Tree : Type
  /-- Compiled highlight queries. -/
  Query : Type
  /-- The tree of a text. -/
  parse : Language → List Char → Tree
  /-- A tree with the places of its nodes moved along an edit of the text. -/
  reshape : Tree → ByteEdit → Tree
  /-- The ranges in which a reshaped tree and the tree of the new text differ. -/
  difference : Tree → Tree → List ByteRange
  /-- The query of a text, or why the text is none. -/
  compile : Language → String → Except String Query
  /-- The names of a query's captures; the index of a capture counts along them. -/
  captureNames : Query → List String
  /-- The captures that a query reports for a range, in the order of their starts. -/
  captures : Query → Tree → List Char → ByteRange → List QueryCapture
  /-- Whether a query over a range has more matches in progress than a limit. -/
  exceeds : Query → Tree → List Char → ByteRange → Nat → Bool

end LiveHighlight
