import LiveHighlight.ByteRange

/-! Concrete syntax trees. A node knows its lengths, not its place: the bytes of blanks before its
first token, its padding, and the bytes from there to its end, its size. -/

namespace LiveHighlight

/-- The kind of a node. Tokens that a grammar only spells are not named, and the end of a text is
not visible. -/
structure NodeKind where
  name : String
  named : Bool := true
  visible : Bool := true
deriving DecidableEq, Repr, Inhabited

/-- A node with the field it fills in the node above it, its padding, its size and its children. -/
inductive SyntaxNode
  | mk (kind : NodeKind) (field : Option String) (padding size : Nat) (children : List SyntaxNode)
deriving Repr, Inhabited

namespace SyntaxNode

def kind : SyntaxNode → NodeKind
  | mk kind _ _ _ _ => kind

def field : SyntaxNode → Option String
  | mk _ field _ _ _ => field

def padding : SyntaxNode → Nat
  | mk _ _ padding _ _ => padding

def size : SyntaxNode → Nat
  | mk _ _ _ size _ => size

def children : SyntaxNode → List SyntaxNode
  | mk _ _ _ _ children => children

/-- The bytes of a node with its padding. -/
def total (n : SyntaxNode) : Nat := n.padding + n.size

/-- The bytes of some nodes. -/
def totals : List SyntaxNode → Nat
  | [] => 0
  | n :: ns => n.total + totals ns

/-- A token. -/
def leaf (kind : NodeKind) (padding size : Nat) : SyntaxNode := mk kind none padding size []

/-- A node around others. Its padding is that of the first one. -/
def branch (kind : NodeKind) (children : List SyntaxNode) : SyntaxNode :=
  let padding := (children.head?.map SyntaxNode.padding).getD 0
  mk kind none padding (totals children - padding) children

/-- The node in a field of the node above it. -/
def inField (field : String) : SyntaxNode → SyntaxNode
  | mk kind _ padding size children => mk kind (some field) padding size children

mutual

/-- The number of nodes in a tree. -/
def count : SyntaxNode → Nat
  | mk _ _ _ _ children => 1 + countAll children

def countAll : List SyntaxNode → Nat
  | [] => 0
  | n :: ns => n.count + countAll ns

end

end SyntaxNode

end LiveHighlight
