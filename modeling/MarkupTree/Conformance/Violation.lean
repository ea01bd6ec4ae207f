import MarkupTree.Node

/-!
# Violations

What a tree can do wrong: an owner whose pear is no end tag, an identity used twice, offsets that
do not fit the text, a text that is not what the source has, and a position that is not that of its
offset. Each violation carries what its message says.

* `id?_eq_none_iff` — only a wrong pear names no token
-/

namespace MarkupTree

/-- An end of a token. -/
inductive Edge where
  | start
  | stop
deriving DecidableEq, Repr

/-- The name of an end in messages. -/
def Edge.name : Edge → String
  | start => "start"
  | stop => "end"

/-- A way in which a tree fails to agree with its source. -/
inductive Violation where
  /-- The pear of a node is not an end tag. -/
  | pearNotEndTag (owner : List Char) (offset : UInt32) (kind : NodeKind)
  /-- The identity has been seen before. -/
  | duplicateToken (id : TokenId) (offset : UInt32)
  /-- The offsets do not span `len` units, the length of the text. -/
  | offsetLength (id : TokenId) (startOffset endOffset len : UInt32)
  /-- The text is not the one the source has between the offsets. -/
  | rawMismatch (id : TokenId) (startOffset endOffset : UInt32) (raw expected : List Char)
  /-- The position of an end is not the position of its offset. -/
  | position (id : TokenId) (edge : Edge) (offset : UInt32) (actual expected : Position)
deriving DecidableEq, Repr

namespace Violation

/-- The text shown for a violation. -/
def message : Violation → String
  | pearNotEndTag owner offset kind =>
    s!"pear node of <{String.ofList owner}> at {offset} is a {String.ofList kind.tag}, " ++
      "expected an end tag"
  | duplicateToken id offset =>
    s!"token {String.ofList id.display} at {offset} appears more than once in the tree"
  | offsetLength id start stop len =>
    s!"token {String.ofList id.display} spans {start}..{stop} but its raw text is {len} units long"
  | rawMismatch id start stop raw expected =>
    s!"token {String.ofList id.display} at {start}..{stop} holds " ++
      s!"{String.ofList (Text.quoted raw)} but the source has " ++
      s!"{String.ofList (Text.quoted expected)}"
  | position id edge offset actual expected =>
    s!"token {String.ofList id.display} {edge.name} position is " ++
      s!"{String.ofList actual.display} but offset {offset} is at " ++
      s!"{String.ofList expected.display}"

/-- The token at fault. -/
def id? : Violation → Option TokenId
  | pearNotEndTag .. => none
  | duplicateToken id _ | offsetLength id .. | rawMismatch id .. | position id .. => some id

/-- The offset to report. -/
def offset : Violation → UInt32
  | pearNotEndTag _ offset _ | duplicateToken _ offset | position _ _ offset .. => offset
  | offsetLength _ start .. | rawMismatch _ start .. => start

theorem id?_eq_none_iff {v : Violation} :
    v.id? = none ↔ ∃ owner offset kind, v = pearNotEndTag owner offset kind := by
  cases v <;> simp [id?]

end Violation

end MarkupTree
