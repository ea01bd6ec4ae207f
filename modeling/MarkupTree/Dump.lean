import MarkupTree.Text.Visible
import MarkupTree.Walk

/-!
# Dumps

A dump writes a node or an attribute as a line such as

    [1:1]>[1:13](0,12)div: <div␣id="a">

with the positions of both ends, the offsets, a label, and the text with its blanks drawn. A ghost
and a token that the source leaves out have no place, which is written `N/A`.

* `nodeList_length`, `tree_length` — a dump has one line for each node
-/

namespace MarkupTree.Dump

/-! ## Lines -/

/-- The place of a token. -/
def place (t : Token) : List Char :=
  ['['] ++ t.startPos.display ++ [']', '>', '['] ++ t.endPos.display ++ [']', '(']
    ++ decimal t.startOffset ++ [','] ++ decimal t.endOffset ++ [')']

/-- What is written for no place. -/
def noPlace : List Char := "[N/A]>[N/A](N/A)".toList

/-- A line. -/
def line (place label text : List Char) : List Char := place ++ label ++ [':', ' '] ++ text

/-- The line of a token. -/
def tokenLine (label : List Char) (t : Token) : List Char :=
  line (place t) label (Text.visible t.raw)

/-- The line of a field that may be left out. -/
def fieldLine (label : List Char) : Option Token → List Char
  | some t => tokenLine label t
  | none => line noPlace label []

/-- The line of a flag. -/
def flagLine (label : List Char) (flag : Bool) : List Char :=
  label ++ [':', ' '] ++ (if flag then "true" else "false").toList

/-- A line that belongs to the line above. -/
def indented (l : List Char) : List Char := [' ', ' '] ++ l

/-- The first of the names that is there and not empty, `fallback` if there is none. -/
def firstName (names : List (Option (List Char))) (fallback : List Char) : List Char :=
  ((names.filterMap id).find? (!·.isEmpty)).getD fallback

/-! ## Nodes -/

/-- The line of a node. -/
def node (n : Node) : List Char :=
  if n.isGhost then line noPlace n.name (Text.visible n.raw)
  else tokenLine (firstName [some n.name] n.kind.tag) n.token

/-- One line for each node of a list. -/
def nodeList (nodes : List Node) : List (List Char) := nodes.map node

/-- One line for each node of a forest, in the order of a walk. -/
def tree (nodes : List Node) : List (List Char) := nodeList (flatten nodes)

theorem nodeList_length (nodes : List Node) : (nodeList nodes).length = nodes.length :=
  List.length_map _

theorem tree_length (nodes : List Node) : (tree nodes).length = (flatten nodes).length :=
  nodeList_length _

/-! ## Attributes -/

/-- The labels of the tokens inside an attribute. -/
def fieldLabels : List (List Char) :=
  ["bN", "name", "bE", "equal", "aE", "sQ", "value", "eQ"].map String.toList

/-- The lines of the tokens and the flags of an attribute. -/
def htmlLines (a : HtmlAttribute) : List (List Char) :=
  List.zipWith fieldLine fieldLabels a.fields
    ++ [flagLine "isDirective".toList a.isDirective,
      flagLine "isDynamicValue".toList a.isDynamicValue,
      flagLine "isInvalid".toList a.isInvalid]

/-- The lines below the first line of an attribute. -/
def detailLines : Attribute → List (List Char)
  | .html a => htmlLines a
  | .block _ => []

/-- The line of the name that an attribute stands for. -/
def potentialNameLine (name : List Char) : List Char :=
  "potentialName: ".toList ++ Text.visible name

/-- The lines of an attribute. -/
def record (a : Attribute) : List (List Char) :=
  tokenLine (firstName [a.nodeName, a.potentialName] a.tag) a.token
    :: (detailLines a ++ a.potentialName.toList.map potentialNameLine).map indented

/-- The lines of each attribute of a list. -/
def attributeList (attributes : List Attribute) : List (List (List Char)) :=
  attributes.map record

end MarkupTree.Dump
