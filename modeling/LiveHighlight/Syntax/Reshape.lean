import LiveHighlight.Syntax.Tree
import LiveHighlight.Text.Edit

/-! A tree moved along an edit of its text, before the new text is parsed. Only lengths change:
inserted text goes to the first node that touches it, and the nodes after it only shrink. -/

namespace LiveHighlight

/-- An edit that only inserts. -/
def ByteEdit.isInsertion (e : ByteEdit) : Bool := e.oldEnd == e.start

/-- An edit seen from an offset: what lies before it counts as lying at it. -/
def ByteEdit.from (e : ByteEdit) (offset : Nat) : ByteEdit :=
  ⟨e.start - offset, e.oldEnd - offset, e.newEnd - offset⟩

namespace SyntaxNode

/-- The padding and size of a node after an edit, whose offsets count from the padding on. -/
def resize (padding size : Nat) (e : ByteEdit) : Nat × Nat :=
  if e.oldEnd ≤ padding then (e.newEnd + (padding - e.oldEnd), size)
  else if e.start < padding then (e.newEnd, size - (e.oldEnd - padding))
  else if e.start = padding ∧ e.isInsertion then (e.newEnd, size)
  else if e.start < padding + size ∨ (e.start = padding + size ∧ e.isInsertion) then
    (padding, e.newEnd - padding + (padding + size - e.oldEnd))
  else (padding, size)

mutual

/-- A node after an edit. One that ends well before the edit keeps all below it as it is. -/
def reshape (e : ByteEdit) : SyntaxNode → SyntaxNode
  | mk kind field padding size children =>
    if padding + size + 1 < e.start then mk kind field padding size children
    else
      let (newPadding, newSize) := resize padding size e
      mk kind field newPadding newSize (reshapeAll e e.isInsertion true 0 children)

/-- The children of a node after an edit of the node, from the child at offset `left` on. Once a
child has taken the inserted text the edit ends where it starts. -/
def reshapeAll (e : ByteEdit) (insertion first : Bool) (left : Nat) :
    List SyntaxNode → List SyntaxNode
  | [] => []
  | child :: rest =>
    let right := left + child.total
    if right + 1 < e.start then child :: reshapeAll e insertion false right rest
    else if e.oldEnd < left ∨ (left = e.oldEnd ∧ 0 < child.total ∧ !first) then child :: rest
    else
      let inside := e.from left
      if e.start < right ∨ (right = e.start ∧ insertion) then
        child.reshape inside :: reshapeAll { e with newEnd := e.start } insertion false right rest
      else
        child.reshape ⟨inside.start, inside.start, inside.start⟩ ::
          reshapeAll e insertion false right rest

end

end SyntaxNode

end LiveHighlight
