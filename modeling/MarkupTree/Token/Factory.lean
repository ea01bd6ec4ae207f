import MarkupTree.Position.Rules
import MarkupTree.Token

/-!
# Making tokens

A token is made either from its text and the place where the text starts (`Token.make`), or as the
part of a source between two offsets (`Token.fragment`). Both take one identity from the counter.
A request that fails in front of that leaves the counter alone; one that fails behind it has used
an identity up.

* `make_of_overflow` — an end offset that does not fit uses no identity
* `make_of_fits` — a token is made when all three of its ends fit
* `make_of_endLine_error`, `make_of_endCol_error` — otherwise an identity is used and no token made
* `fragment_of_le`, `fragment_of_not_le` — a fragment fails exactly on a span that runs backwards
-/

namespace MarkupTree

namespace Token

/-- The token of `raw`, which starts at `line`, `col` and `start`. Without a text it has no
width. -/
def make (rules : PositionRules) (raw : Option (List Char)) (line col start : UInt32)
    (counter : Counter) : Except Fault Token × Counter :=
  let text := raw.getD []
  match checkedAdd start (Text.unitLen text) with
  | none => (.error (.endOffsetOverflow start), counter)
  | some stop =>
    (do
      let lastLine ← rules.endLine text line
      let lastCol ← rules.endCol text col
      return { id := counter.take.1, raw := text, startOffset := start, endOffset := stop,
               startLine := line, endLine := lastLine, startCol := col, endCol := lastCol },
     counter.take.2)

theorem make_of_overflow {rules : PositionRules} {raw : Option (List Char)}
    {line col start : UInt32} {counter : Counter}
    (h : checkedAdd start (Text.unitLen (raw.getD [])) = none) :
    make rules raw line col start counter = (.error (.endOffsetOverflow start), counter) := by
  simp only [make, h]

theorem make_of_fits {rules : PositionRules} {raw : Option (List Char)}
    {line col start stop lastLine lastCol : UInt32} {counter : Counter}
    (hstop : checkedAdd start (Text.unitLen (raw.getD [])) = some stop)
    (hline : rules.endLine (raw.getD []) line = .ok lastLine)
    (hcol : rules.endCol (raw.getD []) col = .ok lastCol) :
    make rules raw line col start counter =
      (.ok { id := counter.take.1, raw := raw.getD [], startOffset := start, endOffset := stop,
             startLine := line, endLine := lastLine, startCol := col, endCol := lastCol },
        counter.take.2) := by
  simp only [make, hstop, hline, hcol]
  rfl

theorem make_of_endLine_error {rules : PositionRules} {raw : Option (List Char)}
    {line col start stop : UInt32} {counter : Counter} {fault : Fault}
    (hstop : checkedAdd start (Text.unitLen (raw.getD [])) = some stop)
    (hline : rules.endLine (raw.getD []) line = .error fault) :
    make rules raw line col start counter = (.error fault, counter.take.2) := by
  simp only [make, hstop, hline]
  rfl

theorem make_of_endCol_error {rules : PositionRules} {raw : Option (List Char)}
    {line col start stop lastLine : UInt32} {counter : Counter} {fault : Fault}
    (hstop : checkedAdd start (Text.unitLen (raw.getD [])) = some stop)
    (hline : rules.endLine (raw.getD []) line = .ok lastLine)
    (hcol : rules.endCol (raw.getD []) col = .error fault) :
    make rules raw line col start counter = (.error fault, counter.take.2) := by
  simp only [make, hstop, hline, hcol]
  rfl

/-- The token of `text` at the offset `start` of a source; its end is where the text ends. -/
def ofText (rules : PositionRules) (source text : List Char) (start : UInt32) (id : TokenId) :
    Token :=
  { id, raw := text
    startOffset := start
    endOffset := start + Text.unitLen text
    startLine := rules.lineAt source start
    endLine := rules.lineAt source (start + Text.unitLen text)
    startCol := rules.colAt source start
    endCol := rules.colAt source (start + Text.unitLen text) }

/-- The token of the source text between two offsets. -/
def fragment (rules : PositionRules) (source : List Char) (start stop : UInt32)
    (counter : Counter) : Except Fault Token × Counter :=
  match slice source start stop with
  | .error fault => (.error fault, counter)
  | .ok text => (.ok (ofText rules source text start counter.take.1), counter.take.2)

theorem fragment_of_le {rules : PositionRules} {source : List Char} {start stop : UInt32}
    {counter : Counter} (h : start ≤ stop) :
    fragment rules source start stop counter =
      (.ok (ofText rules source
          ((Text.before source stop).drop (Text.charsBefore source start)) start counter.take.1),
        counter.take.2) := by
  rw [fragment, slice_of_le h]

theorem fragment_of_not_le {rules : PositionRules} {source : List Char} {start stop : UInt32}
    {counter : Counter} (h : ¬start ≤ stop) :
    fragment rules source start stop counter = (.error (.reversedSpan start stop), counter) := by
  rw [fragment, slice_of_not_le h]

end Token

end MarkupTree
