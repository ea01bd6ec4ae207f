import MarkupTree.Conformance.Violation

/-!
# Parse errors

What a parser answers for a source it does not read. A violation found in a parser's tree is a
parse error too: the tree is malformed.

* `offset_malformed` — a malformed tree is reported where its violation is
-/

namespace MarkupTree

/-- Why a source has no tree. -/
inductive ParseError where
  /-- The source is not valid. -/
  | invalidSource (detail : String) (offset : Option UInt32)
  /-- The source uses something the parser does not know. -/
  | unsupported (detail : String)
  /-- The parser failed. -/
  | internal (detail : String)
  /-- The parser made a tree that does not agree with the source. -/
  | malformed (violation : Violation)
deriving DecidableEq, Repr

namespace ParseError

/-- The text shown for an error. -/
def message : ParseError → String
  | invalidSource detail _ => s!"Invalid source: {detail}"
  | unsupported detail => s!"Unsupported syntax: {detail}"
  | internal detail => s!"Internal parser error: {detail}"
  | malformed v => s!"Malformed tree: {v.message}"

/-- The code of the kind of error in reports. -/
def code : ParseError → String
  | invalidSource .. => "mlint::parse::invalid_source"
  | unsupported _ => "mlint::parse::unsupported"
  | internal _ => "mlint::parse::internal"
  | malformed _ => "mlint::parse::malformed_tree"

/-- The offset to report, if there is one. -/
def offset : ParseError → Option UInt32
  | invalidSource _ offset => offset
  | unsupported _ | internal _ => none
  | malformed v => some v.offset

/-- The violation behind an error. -/
def cause : ParseError → Option Violation
  | invalidSource .. | unsupported _ | internal _ => none
  | malformed v => some v

theorem offset_malformed (v : Violation) : (malformed v).offset = some v.offset := rfl

end ParseError

end MarkupTree
