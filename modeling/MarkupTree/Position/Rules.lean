import MarkupTree.Position.Offset

/-!
# Position rules

A dialect may count lines and columns in its own way. `PositionRules` holds the four functions that
tokens are built and checked with; `baseline` is the way of plain markup, and a dialect replaces
those functions in which it differs.

* `baseline_position_congr` — of plain markup, a position depends only on the cut at its offset
-/

namespace MarkupTree

/-- How a dialect counts lines and columns. -/
structure PositionRules where
  /-- The line that holds an offset of a source. -/
  lineAt : List Char → UInt32 → UInt32 := MarkupTree.lineAt
  /-- The column of an offset in its line. -/
  colAt : List Char → UInt32 → UInt32 := MarkupTree.colAt
  /-- The line on which a text ends that starts on a given line. -/
  endLine : List Char → UInt32 → Except Fault UInt32 := MarkupTree.endLine
  /-- The column behind a text that starts in a given column. -/
  endCol : List Char → UInt32 → Except Fault UInt32 := MarkupTree.endCol

namespace PositionRules

/-- Only `\n` ends a line, and lines and columns start at one. -/
def baseline : PositionRules := {}

/-- The text with every carriage return made a line feed. -/
def returnsAsBreaks (raw : List Char) : List Char := raw.map fun c => if c = '\r' then '\n' else c

/-- A carriage return ends a line of a token as well, so `\r\n` ends two. -/
def carriageReturns : PositionRules where
  endLine raw line := MarkupTree.endLine (returnsAsBreaks raw) line

/-- Lines and columns of a source are counted from zero. -/
def zeroBased : PositionRules where
  lineAt source offset := MarkupTree.lineAt source offset - 1
  colAt source offset := MarkupTree.colAt source offset - 1

/-- The position of an offset of a source. -/
def position (rules : PositionRules) (source : List Char) (offset : UInt32) : Position :=
  ⟨rules.lineAt source offset, rules.colAt source offset⟩

theorem baseline_position_congr {source other : List Char} {offset offset' : UInt32}
    (h : Text.before source offset = Text.before other offset') :
    baseline.position source offset = baseline.position other offset' := by
  show (⟨MarkupTree.lineAt source offset, MarkupTree.colAt source offset⟩ : Position)
    = ⟨MarkupTree.lineAt other offset', MarkupTree.colAt other offset'⟩
  rw [MarkupTree.lineAt, MarkupTree.lineAt, MarkupTree.colAt, MarkupTree.colAt, h]

end PositionRules

end MarkupTree
