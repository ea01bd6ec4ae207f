import MarkupTree.Node
import MarkupTree.Token.Factory

/-!
# Chains

A chain is a node wrapped again and again in nodes of one pattern, each the only child of the next:
a tree of any depth.

* `chain_zero`, `chain_succ` — the innermost layer is put on first
-/

namespace MarkupTree

/-- The pattern of a node around another. -/
structure Layer where
  kind : NodeKind
  name : List Char
  raw : List Char
  /-- The text of an end tag, which becomes the pear. -/
  pearRaw : Option (List Char) := none
deriving DecidableEq, Repr

namespace Layer

/-- The pear of a layer. Its token comes in front of that of the node. -/
def makePear (layer : Layer) (rules : PositionRules) (counter : Counter) :
    Except Fault (Option Node) × Counter :=
  match layer.pearRaw with
  | none => (.ok none, counter)
  | some raw =>
    let made := Token.make rules (some raw) 1 1 0 counter
    (made.1.map fun token => some (Node.parent .endTag token layer.name []), made.2)

/-- Puts one layer around a node. -/
def wrap (layer : Layer) (rules : PositionRules) (inner : Node) (counter : Counter) :
    Except Fault Node × Counter :=
  match layer.makePear rules counter with
  | (.error fault, counter) => (.error fault, counter)
  | (.ok pear, counter) =>
    let made := Token.make rules (some layer.raw) 1 1 0 counter
    (made.1.map fun token =>
      { Node.parent layer.kind token layer.name [inner] with pear := pear }, made.2)

/-- Puts `count` layers around a node. -/
def chain (layer : Layer) (rules : PositionRules) :
    Nat → Node → Counter → Except Fault Node × Counter
  | 0, inner, counter => (.ok inner, counter)
  | count + 1, inner, counter =>
    match layer.wrap rules inner counter with
    | (.error fault, counter) => (.error fault, counter)
    | (.ok outer, counter) => chain layer rules count outer counter

theorem chain_zero (layer : Layer) (rules : PositionRules) (inner : Node) (counter : Counter) :
    layer.chain rules 0 inner counter = (.ok inner, counter) := rfl

theorem chain_succ {layer : Layer} {rules : PositionRules} {count : Nat} {inner outer : Node}
    {counter counter' : Counter} (h : layer.wrap rules inner counter = (.ok outer, counter')) :
    layer.chain rules (count + 1) inner counter = layer.chain rules count outer counter' := by
  rw [chain, h]

end Layer

end MarkupTree
