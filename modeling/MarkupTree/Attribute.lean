import MarkupTree.Token

/-!
# Attributes

An attribute of a start tag is either written `name="value"` and known token by token, or one that
only a dialect understands, known by its whole span.

* `mem_parts_html` — the parts of an attribute are the fields that it has
-/

namespace MarkupTree

/-- An attribute of the form `name="value"`. The blanks in front of the name and the name are
always there, though they may have no width; what the source leaves out is `none`. -/
structure HtmlAttribute where
  token : Token
  spacesBeforeName : Token
  name : Token
  spacesBeforeEqual : Option Token := none
  equal : Option Token := none
  spacesAfterEqual : Option Token := none
  startQuote : Option Token := none
  value : Option Token := none
  endQuote : Option Token := none
  isDirective : Bool := false
  isDynamicValue : Bool := false
  isInvalid : Bool := false
  /-- The name it stands for, when the written one is no literal. -/
  potentialName : Option (List Char) := none
deriving DecidableEq, Repr

/-- An attribute known by its whole span only. -/
structure BlockAttribute where
  token : Token
  potentialName : Option (List Char) := none
  isDirective : Bool := false
  isDynamicValue : Bool := false
deriving DecidableEq, Repr

/-- An attribute of a start tag. -/
inductive Attribute where
  | html (a : HtmlAttribute)
  | block (a : BlockAttribute)
deriving DecidableEq, Repr

/-- The tokens inside an attribute in the order of the source, `none` for what is left out. -/
def HtmlAttribute.fields (a : HtmlAttribute) : List (Option Token) :=
  [some a.spacesBeforeName, some a.name, a.spacesBeforeEqual, a.equal, a.spacesAfterEqual,
    a.startQuote, a.value, a.endQuote]

/-- The value without its quotes. -/
def HtmlAttribute.valueText (a : HtmlAttribute) : Option (List Char) := a.value.map Token.raw

namespace Attribute

/-- The whole span. -/
def token : Attribute → Token
  | html a => a.token
  | block a => a.token

/-- The name as it is written. -/
def nodeName : Attribute → Option (List Char)
  | html a => some a.name.raw
  | block _ => none

/-- The name it stands for. -/
def potentialName : Attribute → Option (List Char)
  | html a => a.potentialName
  | block a => a.potentialName

/-- The name of the form in dumps and serialized trees. -/
def tag : Attribute → List Char
  | html _ => "html-attr".toList
  | block _ => "ps-attr".toList

/-- The tokens inside the span that the source has. -/
def parts : Attribute → List Token
  | html a => a.fields.filterMap id
  | block _ => []

theorem mem_parts_html {a : HtmlAttribute} {t : Token} :
    t ∈ (html a).parts ↔ some t ∈ a.fields := by
  simp [parts]

end Attribute

end MarkupTree
