import LiveHighlight.Syntax.Regex
import LiveHighlight.Syntax.Tree

/-! Queries over syntax trees. A query is a list of patterns; a pattern asks for a node with certain
children, names some of the nodes it finds as captures, and may put conditions on their text. -/

namespace LiveHighlight

/-- What a pattern asks of a single node. -/
inductive NodeTest
  | anyNamed
  | any
  | named (kind : String)
  | literal (text : String)
deriving DecidableEq, Repr, Inhabited

def NodeTest.holds (kind : NodeKind) : NodeTest → Bool
  | anyNamed => kind.named
  | any => true
  | named name => kind.named && kind.name == name
  | literal text => !kind.named && kind.name == text

/-- A pattern for a node. Captures are indices into the names of the query. The children asked for
come in this order, with any others around them. -/
inductive NodePattern
  | node (test : NodeTest) (children : List NodePattern) (captures : List Nat)
  | either (choices : List NodePattern) (captures : List Nat)
  | inField (name : String) (inner : NodePattern)
deriving Repr, Inhabited

/-- The pattern with more captures on its node. -/
def NodePattern.capturing (more : List Nat) : NodePattern → NodePattern
  | node test children captures => node test children (captures ++ more)
  | either choices captures => either choices (captures ++ more)
  | inField name inner => inField name (inner.capturing more)

/-- What the text of a capture must be, or must not be unless `wanted`. -/
inductive TextCondition
  | equals (capture : Nat) (text : String) (wanted : Bool)
  | matches (capture : Nat) (expression : Regex) (wanted : Bool)
deriving Repr, Inhabited

/-- A pattern with its conditions. -/
structure QueryPattern where
  root : NodePattern
  conditions : List TextCondition := []
deriving Repr, Inhabited

/-- A query: its patterns in turn and the names of its captures. -/
structure TreeQuery where
  patterns : List QueryPattern := []
  names : List String := []
deriving Repr, Inhabited

end LiveHighlight
