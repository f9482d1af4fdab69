import LiveHighlight.Syntax.Tree

/-! Where the tree of an edited text differs from the reshaped tree of the text before. Two walkers
go through the trees side by side, at the same depth and the same offset. -/

namespace LiveHighlight

/-- A node on a walker's way down: the offset of its padding, whether it is a first child, and the
nodes after it in the node above. -/
structure WalkStep where
  node : SyntaxNode
  offset : Nat
  isFirst : Bool
  later : List SyntaxNode
deriving Inhabited

/-- A walker through a tree: the nodes it is in, the innermost first, how many of those are
visible, and whether it stands in the padding of the innermost one. -/
structure Walker where
  path : List WalkStep
  depth : Nat
  inPadding : Bool
deriving Inhabited

namespace Walker

/-- The walker at the top of a tree. -/
def atRoot (root : SyntaxNode) : Walker := ⟨[⟨root, 0, true, []⟩], 1, false⟩

/-- Whether the walker has left the tree. -/
def isDone (w : Walker) : Bool := w.path.isEmpty

/-- The offset at which the walker's stretch begins. -/
def start (w : Walker) : Nat :=
  match w.path with
  | top :: _ => top.offset + (if w.inPadding then 0 else top.node.padding)
  | [] => 0

/-- The offset at which the walker's stretch ends. -/
def stop (w : Walker) : Nat :=
  match w.path with
  | top :: _ => top.offset + top.node.padding + (if w.inPadding then 0 else top.node.size)
  | [] => 0

/-- The kind of the innermost visible node that the walker is in. -/
def visibleKind (w : Walker) : Option NodeKind :=
  let path := if w.inPadding then w.path.drop 1 else w.path
  (path.find? (·.node.kind.visible)).map (·.node.kind)

/-- Whether the innermost node is visible. -/
def topVisible (w : Walker) : Bool :=
  match w.path with
  | top :: _ => top.node.kind.visible
  | [] => false

/-- The first of some nodes, which begin at `offset`, that ends past `goal`. -/
def childPast (goal offset : Nat) (isFirst : Bool) : List SyntaxNode → Option WalkStep
  | [] => none
  | n :: ns =>
    if goal < offset + n.total then some ⟨n, offset, isFirst, ns⟩
    else childPast goal (offset + n.total) false ns

/-- The walker one visible node further down, at the first child that ends past `goal`, or in the
padding before it; and whether there is one. The count bounds the levels that are not visible. -/
def descendWithin (goal : Nat) : Nat → Walker → Bool × Walker
  | 0, w => (false, w)
  | count + 1, w =>
    match w.path with
    | [] => (false, w)
    | top :: _ =>
      match childPast goal top.offset true top.node.children with
      | none => (false, w)
      | some step =>
        let path := step :: w.path
        if step.node.kind.visible then
          if goal < step.offset + step.node.padding then (true, ⟨path, w.depth, true⟩)
          else (true, ⟨path, w.depth + 1, w.inPadding⟩)
        else descendWithin goal count { w with path }

/-- Nothing lies further down while the walker stands in padding. -/
def descend (goal : Nat) (w : Walker) : Bool × Walker :=
  if w.inPadding then (false, w) else descendWithin goal 8 w

/-- The walker past its innermost node: at the node's next sibling, or past the node above. -/
def advancePath : List WalkStep → (depth : Nat) → Walker
  | [], depth => ⟨[], depth, false⟩
  | top :: above, depth =>
    let depth := if top.node.kind.visible then depth - 1 else depth
    match above with
    | [] => ⟨[], depth, false⟩
    | _ :: _ =>
      match top.later with
      | next :: later =>
        let path := ⟨next, top.offset + top.node.total, false, later⟩ :: above
        if next.kind.visible then
          if 0 < next.padding then ⟨path, depth, true⟩ else ⟨path, depth + 1, false⟩
        else (descend 0 ⟨path, depth, false⟩).2
      | [] => advancePath above depth

/-- The walker past its stretch: from a node's padding on into the node, and else past the node. -/
def advance (w : Walker) : Walker :=
  if w.inPadding then
    if w.topVisible then { w with inPadding := false, depth := w.depth + 1 }
    else (descend 0 { w with inPadding := false }).2
  else advancePath w.path w.depth

/-- The walker in the node above. -/
def ascend (w : Walker) : Walker :=
  match w.path with
  | [] => w
  | top :: above =>
    { path := above
      depth := if top.node.kind.visible && !w.inPadding then w.depth - 1 else w.depth
      inPadding := w.inPadding && top.isFirst }

/-- The walker past all stretches that end at or before an offset, `count` of them at most. -/
def catchUp (offset : Nat) : Nat → Walker → Walker
  | 0, w => w
  | count + 1, w => if !w.isDone && w.stop ≤ offset then catchUp offset count w.advance else w

/-- The walker at a depth no greater than the given one, at most `count` steps up. -/
def riseTo (depth : Nat) : Nat → Walker → Walker
  | 0, w => w
  | count + 1, w => if depth < w.depth then riseTo depth count w.ascend else w

end Walker

namespace SyntaxNode

/-- Ranges in reverse with one more: joined to the last one if it begins no later than that ends. -/
def addRange (reversed : List ByteRange) (start stop : Nat) : List ByteRange :=
  match reversed with
  | last :: before =>
    if start ≤ last.stop then ⟨last.start, stop⟩ :: before
    else if start < stop then ⟨start, stop⟩ :: reversed
    else reversed
  | [] => if start < stop then [⟨start, stop⟩] else []

/-- One comparison of two walkers that have come to `pos`: whether what lies there differs, the
offset up to which that is known, and the walkers. `next` is the offset to keep when both walkers
go further down. -/
def compare (pos next : Nat) (old new : Walker) : Bool × Nat × Walker × Walker :=
  match old.visibleKind, new.visibleKind with
  | none, none => (false, old.stop, old, new)
  | some a, some b =>
    if a ≠ b then (true, min old.stop new.stop, old, new)
    else
      match old.descend pos, new.descend pos with
      | (true, old), (true, new) => (false, next, old, new)
      | (true, old), (false, new) => (true, old.stop, old, new)
      | (false, old), (true, new) => (true, new.stop, old, new)
      | (false, old), (false, new) => (false, min old.stop new.stop, old, new)
  | _, _ => (true, min old.stop new.stop, old, new)

/-- The walk through both trees from `pos` on, with the ranges found so far in reverse. The count
bounds the comparisons, and `nodes` is the number of nodes of both trees. -/
def walk (nodes : Nat) : Nat → (pos next : Nat) → Walker → Walker → List ByteRange → List ByteRange
  | 0, _, _, _, _, found => found
  | count + 1, pos, next, old, new, found =>
    let (changed, next, old, new) := compare pos next old new
    let old := old.catchUp next (2 * nodes)
    let new := new.catchUp next (2 * nodes)
    let old := old.riseTo new.depth nodes
    let new := new.riseTo old.depth nodes
    let found := if changed then addRange found pos next else found
    if old.isDone || new.isDone then found else walk nodes count next next old new found

/-- The ranges in which a reshaped tree and the tree of the new text differ, in order. -/
def difference (old new : SyntaxNode) : List ByteRange :=
  let a := Walker.atRoot old
  let b := Walker.atRoot new
  let first := if a.start = b.start then []
    else addRange [] (min a.start b.start) (max a.start b.start)
  let pos := max a.start b.start
  let nodes := old.count + new.count
  let found := walk nodes (nodes * nodes + nodes) pos pos a b first
  let found := if old.total = new.total then found
    else addRange found (min old.total new.total) (max old.total new.total)
  found.reverse

end SyntaxNode

end LiveHighlight
