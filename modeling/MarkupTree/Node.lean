import MarkupTree.Attribute
import MarkupTree.Node.Kind

/-!
# Nodes

A node has its own token, its children, its attributes, and at most one pear: the node at its other
end, as the end tag of a start tag. The pear belongs to its owner alone and is nobody's child.

* `isEntered_eq` — which nodes a traversal goes into
-/

namespace MarkupTree

/-- A node of a markup tree. -/
structure Node where
  kind : NodeKind
  /-- The span of the node itself: of a start tag just the tag. -/
  token : Token
  /-- The tag name, or the name of the kind. -/
  name : List Char
  /-- Whether the node has no text of its own in the source. -/
  isGhost : Bool := false
  children : List Node := []
  pear : Option Node := none
  attributes : List Attribute := []

namespace Node

/-- A node without children that is named after its kind. -/
def leaf (kind : NodeKind) (token : Token) : Node := { kind, token, name := kind.tag }

/-- A node that may have children. -/
def parent (kind : NodeKind) (token : Token) (name : List Char) (children : List Node) : Node :=
  { kind, token, name, children }

/-- A node that stands for nothing in the source. -/
def ghost (kind : NodeKind) (token : Token) (name : List Char) (children : List Node) : Node :=
  { parent kind token name children with isGhost := true }

/-- The text of the node itself. -/
def raw (n : Node) : List Char := n.token.raw

/-- Whether a traversal goes on from the node to its children and its pear. An end tag is a leaf
even if it has children. -/
def isEntered (n : Node) : Bool := n.kind.carriesChildren && !n.kind.isEndTag

theorem isEntered_eq (n : Node) :
    n.isEntered = (n.kind == .startTag || n.kind == .omittedTag || n.kind == .block) := by
  unfold isEntered
  cases n.kind <;> rfl

end Node

/-- What a parser makes of a source. -/
structure Document where
  nodes : List Node
  /-- Whether the source is a part of a document. -/
  isFragment : Bool

end MarkupTree
