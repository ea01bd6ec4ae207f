import MarkupTree.Fault
import MarkupTree.Position
import MarkupTree.Text.Lines
import MarkupTree.Text.Units

/-!
# Offsets, lines and columns

Where an offset of a source lies, and where a text ends that starts at a given place. Everything
is read off the text in front of the offset, so an offset inside a surrogate pair counts as the
offset behind it and one past the end as the end.

* `slice_of_le`, `slice_of_not_le` — a slice is defined exactly on spans that do not run backwards
* `endLine_eq_ok_iff`, `endCol_eq_ok_iff` — the end of a text, unless it needs more than 32 bits
-/

namespace MarkupTree

open Text

/-! ## From an offset of a source -/

/-- The text of a source between two offsets. -/
def slice (source : List Char) (start stop : UInt32) : Except Fault (List Char) :=
  if start ≤ stop then .ok ((before source stop).drop (charsBefore source start))
  else .error (.reversedSpan start stop)

theorem slice_of_le {source : List Char} {start stop : UInt32} (h : start ≤ stop) :
    slice source start stop = .ok ((before source stop).drop (charsBefore source start)) :=
  if_pos h

theorem slice_of_not_le {source : List Char} {start stop : UInt32} (h : ¬start ≤ stop) :
    slice source start stop = .error (.reversedSpan start stop) := if_neg h

/-- The line that holds an offset. -/
def lineAt (source : List Char) (offset : UInt32) : UInt32 :=
  UInt32.ofNat (breakCount (before source offset)) + 1

/-- The column of an offset in its line. -/
def colAt (source : List Char) (offset : UInt32) : UInt32 :=
  unitLen (lastLine (before source offset)) + 1

/-- The offset at which the line of an offset begins. -/
def lineStart (source : List Char) (offset : UInt32) : UInt32 :=
  unitLen (throughBreak (before source offset))

/-! ## From the start of a text -/

/-- The line on which `raw` ends when it starts on `line`. -/
def endLine (raw : List Char) (line : UInt32) : Except Fault UInt32 :=
  match checkedAdd line (UInt32.ofNat (breakCount raw)) with
  | some l => .ok l
  | none => .error (.endLineOverflow line)

theorem endLine_eq_ok_iff {raw : List Char} {line l : UInt32} :
    endLine raw line = .ok l ↔ checkedAdd line (UInt32.ofNat (breakCount raw)) = some l := by
  unfold endLine
  split <;> simp_all

/-- The column behind `raw` when it starts in column `col`.

A text with a break ends where its last line does, any other is added to the line it starts on. -/
def endCol (raw : List Char) (col : UInt32) : Except Fault UInt32 :=
  match checkedAdd (if '\n' ∈ raw then 1 else col) (unitLen (lastLine raw)) with
  | some c => .ok c
  | none => .error (.endColOverflow col)

theorem endCol_eq_ok_iff {raw : List Char} {col c : UInt32} :
    endCol raw col = .ok c ↔
      checkedAdd (if '\n' ∈ raw then 1 else col) (unitLen (lastLine raw)) = some c := by
  unfold endCol
  split <;> simp_all

end MarkupTree
