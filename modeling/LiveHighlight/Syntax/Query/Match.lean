import LiveHighlight.Syntax.Engine
import LiveHighlight.Syntax.Query.Basic
import LiveHighlight.Text.Utf8

/-! The nodes of a tree that a query reports. Captures come in the order of their starts, at one
start in the order of the patterns, and for one pattern outer nodes first. -/

namespace LiveHighlight

/-- A node with the offset of its padding. -/
structure PlacedNode where
  node : SyntaxNode
  offset : Nat
deriving Inhabited

namespace PlacedNode

/-- The bytes of a node without its padding. -/
def range (p : PlacedNode) : ByteRange :=
  ⟨p.offset + p.node.padding, p.offset + p.node.total⟩

/-- Nodes in a row, the first at an offset. -/
def row (offset : Nat) : List SyntaxNode → List PlacedNode
  | [] => []
  | n :: ns => ⟨n, offset⟩ :: row (offset + n.total) ns

/-- Each of some nodes with those after it. -/
def withLater : List PlacedNode → List (PlacedNode × List PlacedNode)
  | [] => []
  | p :: rest => (p, rest) :: withLater rest

/-- The visible children of a node. -/
def children (p : PlacedNode) : List PlacedNode :=
  (row p.offset p.node.children).filter (·.node.kind.visible)

mutual

/-- A tree's visible nodes, outer ones first. -/
def all (offset : Nat) : SyntaxNode → List PlacedNode
  | .mk kind field padding size children =>
    let below := allOf offset children
    if kind.visible then ⟨.mk kind field padding size children, offset⟩ :: below else below

def allOf (offset : Nat) : List SyntaxNode → List PlacedNode
  | [] => []
  | n :: ns => all offset n ++ allOf (offset + n.total) ns

end

end PlacedNode

/-- The captures of one match: indices with the captured bytes. -/
abbrev Match := List (Nat × ByteRange)

namespace NodePattern

mutual

/-- The matches of a pattern at a node. -/
def matchesAt : NodePattern → PlacedNode → List Match
  | node test children captures, p =>
    if test.holds p.node.kind then
      (inOrder children p.children).map (captures.map (·, p.range) ++ ·)
    else []
  | either choices captures, p => (anyAt choices p).map (captures.map (·, p.range) ++ ·)
  | inField name inner, p => if p.node.field == some name then matchesAt inner p else []

/-- The matches of one of some patterns at a node. -/
def anyAt : List NodePattern → PlacedNode → List Match
  | [], _ => []
  | pattern :: rest, p => matchesAt pattern p ++ anyAt rest p

/-- The matches of patterns in turn at some of the given nodes. -/
def inOrder : List NodePattern → List PlacedNode → List Match
  | [], _ => [[]]
  | pattern :: rest, nodes =>
    (PlacedNode.withLater nodes).flatMap fun (p, later) =>
      (matchesAt pattern p).flatMap fun found => (inOrder rest later).map (found ++ ·)

end

end NodePattern

/-- Whether the captured texts of a match are as a condition asks. -/
def TextCondition.holds (text : List Char) (m : Match) : TextCondition → Bool
  | equals capture wantedText wanted =>
    m.all fun (i, r) => i != capture ||
      ((Utf8.slice text r.start r.stop == wantedText.toList) == wanted)
  | .matches capture expression wanted =>
    m.all fun (i, r) => i != capture ||
      (expression.found (Utf8.slice text r.start r.stop) == wanted)

/-- The matches of a pattern at a node, each once. -/
def QueryPattern.matchesAt (text : List Char) (q : QueryPattern) (p : PlacedNode) : List Match :=
  ((q.root.matchesAt p).filter fun m => q.conditions.all (·.holds text m)).eraseDups

namespace TreeQuery

/-- The greatest offset that limits the nodes of a query, plus one. -/
def offsetBound : Nat := Nat.pow 2 32

/-- Whether a query over a range reports a node. A range that stops at the beginning of the text
has no upper bound. -/
def reports (r node : ByteRange) : Bool :=
  let start := r.start % offsetBound
  let stop := r.stop % offsetBound
  start < node.stop && (stop == 0 || node.start < stop)

/-- The order in which captures are reported. -/
def before (a b : QueryCapture) : Bool :=
  a.range.start < b.range.start || (a.range.start == b.range.start && a.pattern ≤ b.pattern)

/-- The captures that a query reports for a range. -/
def captures (q : TreeQuery) (tree : SyntaxNode) (text : List Char) (r : ByteRange) :
    List QueryCapture :=
  let found := (PlacedNode.all 0 tree).flatMap fun p =>
    if reports r p.range then
      q.patterns.zipIdx.flatMap fun (pattern, number) =>
        (pattern.matchesAt text p).flatMap fun m =>
          m.map fun (index, range) => ⟨range, index, number⟩
    else []
  (found.filter fun c => reports r c.range).mergeSort before

/-- Whether more patterns than a limit capture a node at once. -/
def exceeds (q : TreeQuery) (tree : SyntaxNode) (text : List Char) (r : ByteRange) (limit : Nat) :
    Bool :=
  if q.patterns.length ≤ limit then false
  else
    let captures := q.captures tree text r
    captures.any fun c =>
      limit < ((captures.filter (·.range = c.range)).map (·.pattern)).eraseDups.length

end TreeQuery

end LiveHighlight
