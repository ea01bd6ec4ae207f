import MarkupTree.Token.Id

/-!
# Faults

What a caller must never ask for: a span that ends before it starts, or a number that needs more
than 32 bits. A fault is not an answer about the input, so it is kept apart from the errors a check
or a parser reports: such a computation ends in a `Failure`, one or the other.
-/

namespace MarkupTree

/-- A request that cannot be met. -/
inductive Fault where
  /-- The line behind the text would need more than 32 bits. -/
  | endLineOverflow (startLine : UInt32)
  /-- The column behind the text would need more than 32 bits. -/
  | endColOverflow (startCol : UInt32)
  /-- The offset behind the text would need more than 32 bits. -/
  | endOffsetOverflow (startOffset : UInt32)
  /-- A slice whose end lies in front of its start. -/
  | reversedSpan (startOffset endOffset : UInt32)
  /-- The length of a token whose end lies in front of its start. -/
  | negativeLength (id : TokenId) (startOffset endOffset : UInt32)
deriving DecidableEq, Repr

/-- The text shown for a fault. -/
def Fault.message : Fault → String
  | .endLineOverflow line => s!"end line overflows u32 (start line {line})"
  | .endColOverflow col => s!"end column overflows u32 (start column {col})"
  | .endOffsetOverflow start => s!"token end offset overflows u32 (start {start})"
  | .reversedSpan start stop =>
    s!"reversed span: start offset {start} is past end offset {stop}"
  | .negativeLength id start stop =>
    s!"token {String.ofList id.display} length overflows: end offset {stop} is before start " ++
      s!"offset {start}"

/-- How a computation that may report an error of type `ε` can fail. -/
inductive Failure (ε : Type) where
  /-- It was asked for the impossible. -/
  | fault (fault : Fault)
  /-- It reports an error. -/
  | error (error : ε)
deriving DecidableEq, Repr

end MarkupTree
