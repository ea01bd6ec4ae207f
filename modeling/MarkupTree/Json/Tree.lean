import MarkupTree.Json
import MarkupTree.Walk

/-!
# Serialized trees

The JSON form of tokens, attributes, nodes and documents. A node has its children only if its kind
carries them, its attributes only if there are some, and its pear only if it has one.

* `Node.toJson` — a node with everything below it
-/

namespace MarkupTree

/-- An identity is written as its number. -/
def TokenId.toJson (id : TokenId) : Json := .nat id.value.toNat

/-- A position as an object. -/
def Position.toJson (p : Position) : Json :=
  .object [("line", .word p.line), ("col", .word p.col)]

/-- The options of a walk as an object. -/
def WalkConfig.toJson (config : WalkConfig) : Json :=
  .object [("maxDepth", .option .depth config.maxDepth), ("startDepth", .depth config.startDepth)]

/-- A kind is written as its tag. -/
def NodeKind.toJson (k : NodeKind) : Json := .string k.tag

/-- A token as an object. -/
def Token.toJson (t : Token) : Json :=
  .object
    [("id", t.id.toJson), ("raw", .string t.raw),
      ("startOffset", .word t.startOffset), ("endOffset", .word t.endOffset),
      ("startLine", .word t.startLine), ("endLine", .word t.endLine),
      ("startCol", .word t.startCol), ("endCol", .word t.endCol)]

/-- The field of a name an attribute stands for, if it has one. -/
def potentialNameField (name : Option (List Char)) : List (String × Json) :=
  name.toList.map fun s => ("potentialName", .string s)

/-- An attribute as an object. -/
def Attribute.toJson : Attribute → Json
  | .html a => .object
    ([("type", .string (tag (.html a))), ("token", a.token.toJson),
      ("spacesBeforeName", a.spacesBeforeName.toJson), ("name", a.name.toJson),
      ("spacesBeforeEqual", .option Token.toJson a.spacesBeforeEqual),
      ("equal", .option Token.toJson a.equal),
      ("spacesAfterEqual", .option Token.toJson a.spacesAfterEqual),
      ("startQuote", .option Token.toJson a.startQuote),
      ("value", .option Token.toJson a.value),
      ("endQuote", .option Token.toJson a.endQuote),
      ("isDirective", .bool a.isDirective), ("isDynamicValue", .bool a.isDynamicValue),
      ("isInvalid", .bool a.isInvalid)]
      ++ potentialNameField a.potentialName)
  | .block a => .object
    ([("type", .string (tag (.block a))), ("token", a.token.toJson)]
      ++ potentialNameField a.potentialName
      ++ [("isDirective", .bool a.isDirective), ("isDynamicValue", .bool a.isDynamicValue)])

mutual

/-- A node as an object. -/
def Node.toJson : Node → Json
  | ⟨kind, token, name, isGhost, children, pear, attributes⟩ => .object
    ([("type", kind.toJson), ("nodeName", .string name), ("isGhost", .bool isGhost),
      ("token", token.toJson)]
      ++ (if kind.carriesChildren then [("childNodes", .array (listToJson children))] else [])
      ++ (if attributes.isEmpty then [] else
        [("attributes", .array (attributes.map Attribute.toJson))])
      ++ pearField pear)

/-- The items of a list of nodes. -/
def Node.listToJson : List Node → List Json
  | [] => []
  | n :: ns => n.toJson :: listToJson ns

/-- The field of a pear, if there is one. -/
def Node.pearField : Option Node → List (String × Json)
  | none => []
  | some n => [("pearNode", n.toJson)]

end

/-- A document as an object. -/
def Document.toJson (d : Document) : Json :=
  .object [("nodeList", .array (Node.listToJson d.nodes)), ("isFragment", .bool d.isFragment)]

end MarkupTree
