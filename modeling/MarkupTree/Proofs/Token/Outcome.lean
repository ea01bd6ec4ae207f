import MarkupTree.Proofs.Position.CodeUnits
import MarkupTree.Token.Factory

/-!
# How a request for a token ends

Three sums have to fit into a word when a token is made of a text: its end offset, its end line and
its end column. They are formed one after the other, and the identity is taken behind the first. So
a request ends in one of four ways, and which one it is can be said with numbers that have no limit.
A fragment adds the length of its text to its start without a check, and in a source that fits that
sum needs none.

* `Fault.beginsWith_phrase_iff` — the text of a fault tells by its first words which fault it is
* `endLine_eq_ok_iff_toNat`, `endCol_eq_ok_iff_toNat` — the end of a text, as a number
* `make_eq_iff_ends` — the four ways to end, and no other
* `outcomes_decided` — which of them a request for a token takes, and the two that a fragment has
-/

namespace MarkupTree

open Text

/-! ## The first words of a fault -/

/-- A text begins with some words. -/
def BeginsWith (text words : String) : Prop := words.toList <+: text.toList

theorem BeginsWith.append {text words : String} (h : BeginsWith text words) (rest : String) :
    BeginsWith (text ++ rest) words := by
  rw [BeginsWith, String.toList_append]
  exact h.trans (List.prefix_append _ _)

namespace Fault

/-- The first words of the text of a fault. -/
def phrase : Fault → String
  | endLineOverflow _ => "end line overflows"
  | endColOverflow _ => "end column overflows"
  | endOffsetOverflow _ => "token end offset overflows"
  | reversedSpan _ _ => "reversed span"
  | negativeLength _ _ _ => "token tok-"

theorem beginsWith_phrase (f : Fault) : BeginsWith f.message f.phrase := by
  cases f with
  | endLineOverflow line =>
    have h : BeginsWith "end line overflows u32 (start line " "end line overflows" := by
      unfold BeginsWith
      decide +kernel
    exact (h.append _).append _
  | endColOverflow col =>
    have h : BeginsWith "end column overflows u32 (start column " "end column overflows" := by
      unfold BeginsWith
      decide +kernel
    exact (h.append _).append _
  | endOffsetOverflow start =>
    have h : BeginsWith "token end offset overflows u32 (start " "token end offset overflows" := by
      unfold BeginsWith
      decide +kernel
    exact (h.append _).append _
  | reversedSpan start stop =>
    have h : BeginsWith "reversed span: start offset " "reversed span" := by
      unfold BeginsWith
      decide +kernel
    exact ((h.append _).append _).append _
  | negativeLength id start stop =>
    have h : BeginsWith ("token " ++ String.ofList id.display) "token tok-" := by
      have hdisplay : (String.ofList id.display).toList
          = ['t', 'o', 'k', '-'] ++ hexDigits id.value.toNat := String.toList_ofList
      rw [BeginsWith, String.toList_append, hdisplay, ← List.append_assoc]
      exact List.prefix_append _ _
    exact (((h.append _).append _).append _).append _

/-- No phrase is the beginning of another. -/
theorem phrase_eq_of_beginsWith {f g : Fault} (h : BeginsWith g.phrase f.phrase) :
    f.phrase = g.phrase := by
  revert h
  unfold BeginsWith
  cases f <;> cases g <;> simp only [phrase] <;> decide +kernel

/-- The text of a fault begins with the phrase of its own kind and with no other phrase. -/
theorem beginsWith_phrase_iff {f g : Fault} :
    BeginsWith f.message g.phrase ↔ f.phrase = g.phrase := by
  constructor
  · intro h
    rcases List.prefix_or_prefix_of_prefix f.beginsWith_phrase h with h | h
    · exact phrase_eq_of_beginsWith h
    · exact (phrase_eq_of_beginsWith h).symm
  · intro h
    exact h ▸ f.beginsWith_phrase

end Fault

/-! ## The end of a text -/

/-- The column behind a text that starts in column `col`, as a number. -/
def columnBehind (text : List Char) (col : Nat) : Nat :=
  if '\n' ∈ text then 1 + unitCount (lastLine text) else col + unitCount text

theorem columnBehind_of_mem {text : List Char} (h : '\n' ∈ text) (col : Nat) :
    columnBehind text col = 1 + unitCount (lastLine text) := if_pos h

theorem columnBehind_of_not_mem {text : List Char} (h : '\n' ∉ text) (col : Nat) :
    columnBehind text col = col + unitCount text := if_neg h

/-- The column in which a text starts matters only if the text has no break. -/
theorem columnBehind_lt_iff {text : List Char} (hfits : unitCount text < UInt32.size) {col : Nat} :
    columnBehind text col < UInt32.size ↔ ('\n' ∉ text → col + unitCount text < UInt32.size) := by
  by_cases hbreak : '\n' ∈ text
  · have hlast := unitCount_lastLine_lt hbreak
    rw [columnBehind_of_mem hbreak]
    exact iff_of_true (by omega) (absurd hbreak)
  · rw [columnBehind_of_not_mem hbreak]
    exact ⟨fun h _ => h, fun h => h hbreak⟩

section

variable {text : List Char} (hfits : unitCount text < UInt32.size)

include hfits

theorem endLine_eq_ok_iff_toNat {line l : UInt32} :
    endLine text line = .ok l ↔ l.toNat = line.toNat + breakCount text := by
  have hcount := breakCount_le_unitCount text
  rw [endLine_eq_ok_iff, checkedAdd_eq_some_iff, UInt32.toNat_ofNat_of_lt' (by omega)]

theorem endLine_eq_error {line : UInt32} (h : UInt32.size ≤ line.toNat + breakCount text) :
    endLine text line = .error (.endLineOverflow line) := by
  have hcount := breakCount_le_unitCount text
  have hnone : checkedAdd line (UInt32.ofNat (breakCount text)) = none := by
    rw [checkedAdd_eq_none_iff, UInt32.toNat_ofNat_of_lt' (by omega)]
    exact h
  rw [endLine, hnone]

theorem endCol_eq_ok_iff_toNat {col c : UInt32} :
    endCol text col = .ok c ↔ c.toNat = columnBehind text col.toNat := by
  rw [endCol_eq_ok_iff, checkedAdd_eq_some_iff]
  by_cases hbreak : '\n' ∈ text
  · have hlast := unitCount_lastLine_lt hbreak
    rw [if_pos hbreak, columnBehind_of_mem hbreak, toNat_unitLen (by omega)]
    rfl
  · rw [if_neg hbreak, columnBehind_of_not_mem hbreak, lastLine_of_not_mem hbreak,
      toNat_unitLen hfits]

theorem endCol_eq_error {col : UInt32} (hbreak : '\n' ∉ text)
    (h : UInt32.size ≤ col.toNat + unitCount text) :
    endCol text col = .error (.endColOverflow col) := by
  have hnone : checkedAdd col (unitLen text) = none := by
    rw [checkedAdd_eq_none_iff, toNat_unitLen hfits]
    exact h
  rw [endCol, if_neg hbreak, lastLine_of_not_mem hbreak, hnone]

end

/-! ## The four ways to end -/

namespace Token

/-- A token holds `text`, starts where it was to start, and its ends are the sums that have no
limit. -/
structure Spans (t : Token) (text : List Char) (line col start : UInt32) : Prop where
  raw : t.raw = text
  startOffset : t.startOffset = start
  startLine : t.startLine = line
  startCol : t.startCol = col
  endOffset : t.endOffset.toNat = start.toNat + unitCount text
  endLine : t.endLine.toNat = line.toNat + breakCount text
  endCol : t.endCol.toNat = columnBehind text col.toNat

/-- The ways in which a request for the token of `text` ends. -/
inductive Ends (text : List Char) (line col start : UInt32) (c : Counter) :
    Except Fault Token × Counter → Prop
  /-- The end offset does not fit, and no identity is taken. -/
  | offset (hstart : UInt32.size ≤ start.toNat + unitCount text) :
    Ends text line col start c (.error (.endOffsetOverflow start), c)
  /-- An identity is taken, and the end line does not fit. -/
  | line (hstart : start.toNat + unitCount text < UInt32.size)
    (hline : UInt32.size ≤ line.toNat + breakCount text) :
    Ends text line col start c (.error (.endLineOverflow line), c.take.2)
  /-- An identity is taken, the end line fits, and the end column does not. -/
  | column (hstart : start.toNat + unitCount text < UInt32.size)
    (hline : line.toNat + breakCount text < UInt32.size) (hbreak : '\n' ∉ text)
    (hcol : UInt32.size ≤ col.toNat + unitCount text) :
    Ends text line col start c (.error (.endColOverflow col), c.take.2)
  /-- All three ends fit. -/
  | token {t : Token} (hid : t.id = c.take.1) (hspans : t.Spans text line col start) :
    Ends text line col start c (.ok t, c.take.2)

variable {text : List Char} {line col start : UInt32} {c : Counter}

section

variable {t : Token} (h : t.Spans text line col start)

include h

theorem Spans.offset_lt : start.toNat + unitCount text < UInt32.size :=
  h.endOffset ▸ t.endOffset.toNat_lt_size

theorem Spans.line_lt : line.toNat + breakCount text < UInt32.size :=
  h.endLine ▸ t.endLine.toNat_lt_size

theorem Spans.column_lt : columnBehind text col.toNat < UInt32.size :=
  h.endCol ▸ t.endCol.toNat_lt_size

end

theorem exists_spans (id : TokenId) (hstart : start.toNat + unitCount text < UInt32.size)
    (hline : line.toNat + breakCount text < UInt32.size)
    (hcol : columnBehind text col.toNat < UInt32.size) :
    ∃ t : Token, t.id = id ∧ t.Spans text line col start :=
  ⟨⟨id, text, start, .ofNat _, line, .ofNat _, col, .ofNat _⟩, rfl, {
    raw := rfl
    startOffset := rfl
    startLine := rfl
    startCol := rfl
    endOffset := UInt32.toNat_ofNat_of_lt' hstart
    endLine := UInt32.toNat_ofNat_of_lt' hline
    endCol := UInt32.toNat_ofNat_of_lt' hcol }⟩

theorem exists_ends (hfits : unitCount text < UInt32.size) (line col start : UInt32)
    (c : Counter) : ∃ r, Ends text line col start c r := by
  rcases Nat.lt_or_ge (start.toNat + unitCount text) UInt32.size with hstart | hstart
  case inr => exact ⟨_, .offset hstart⟩
  rcases Nat.lt_or_ge (line.toNat + breakCount text) UInt32.size with hline | hline
  case inr => exact ⟨_, .line hstart hline⟩
  rcases Nat.lt_or_ge (columnBehind text col.toNat) UInt32.size with hcol | hcol
  · obtain ⟨t, hid, hspans⟩ := exists_spans c.take.1 hstart hline hcol
    exact ⟨_, .token hid hspans⟩
  · have hlate := mt (columnBehind_lt_iff hfits).mpr (Nat.not_lt_of_le hcol)
    push Not at hlate
    exact ⟨_, .column hstart hline hlate.1 hlate.2⟩

theorem make_of_ends {raw : Option (List Char)} (hfits : unitCount (raw.getD []) < UInt32.size)
    {r : Except Fault Token × Counter} (h : Ends (raw.getD []) line col start c r) :
    make .baseline raw line col start c = r := by
  -- the end offset, where it fits
  have hstop {stop : UInt32} (h : stop.toNat = start.toNat + unitCount (raw.getD [])) :
      checkedAdd start (unitLen (raw.getD [])) = some stop := by
    rw [checkedAdd_eq_some_iff, toNat_unitLen hfits, h]
  cases h with
  | offset hstart =>
    refine make_of_overflow ?_
    rw [checkedAdd_eq_none_iff, toNat_unitLen hfits]
    exact hstart
  | line hstart hline =>
    have hend := UInt32.toNat_ofNat_of_lt' hstart
    exact make_of_endLine_error (hstop hend) (endLine_eq_error hfits hline)
  | column hstart hline hbreak hcol =>
    have hend := UInt32.toNat_ofNat_of_lt' hstart
    have hlast := (endLine_eq_ok_iff_toNat hfits).mpr (UInt32.toNat_ofNat_of_lt' hline)
    exact make_of_endCol_error (hstop hend) hlast (endCol_eq_error hfits hbreak hcol)
  | token hid hspans =>
    rw [make_of_fits (hstop hspans.endOffset) ((endLine_eq_ok_iff_toNat hfits).mpr hspans.endLine)
      ((endCol_eq_ok_iff_toNat hfits).mpr hspans.endCol), ← hid, ← hspans.raw]
    simp only [← hspans.startOffset, ← hspans.startLine, ← hspans.startCol]

theorem make_eq_iff_ends {raw : Option (List Char)}
    (hfits : unitCount (raw.getD []) < UInt32.size) {r : Except Fault Token × Counter} :
    make .baseline raw line col start c = r ↔ Ends (raw.getD []) line col start c r := by
  obtain ⟨r', h⟩ := exists_ends hfits line col start c
  constructor
  · intro hr
    rw [← hr, make_of_ends hfits h]
    exact h
  · exact make_of_ends hfits

/-- A token is made exactly when it spans the text and has the next identity. -/
theorem make_eq_ok_iff_spans (hfits : unitCount text < UInt32.size) {t : Token} :
    (make .baseline (some text) line col start c).1 = .ok t ↔
      t.id = c.take.1 ∧ t.Spans text line col start := by
  have hraw : unitCount ((some text).getD []) < UInt32.size := hfits
  constructor
  · intro ht
    have h : Ends text line col start c (make .baseline (some text) line col start c) :=
      (make_eq_iff_ends hraw).mp rfl
    generalize make .baseline (some text) line col start c = r at h ht
    cases h with
    | offset | line | column => exact nomatch ht
    | token hid hspans => exact Except.ok.inj ht ▸ ⟨hid, hspans⟩
  · rintro ⟨hid, hspans⟩
    rw [make_of_ends hraw (.token hid hspans)]

/-- There is a token exactly when all three sums fit. -/
theorem exists_make_eq_ok_iff (hfits : unitCount text < UInt32.size) :
    (∃ t, (make .baseline (some text) line col start c).1 = .ok t) ↔
      start.toNat + unitCount text < UInt32.size ∧ line.toNat + breakCount text < UInt32.size ∧
        columnBehind text col.toNat < UInt32.size := by
  constructor
  · rintro ⟨t, ht⟩
    obtain ⟨-, hspans⟩ := (make_eq_ok_iff_spans hfits).mp ht
    exact ⟨hspans.offset_lt, hspans.line_lt, hspans.column_lt⟩
  · rintro ⟨hstart, hline, hcol⟩
    obtain ⟨t, ht⟩ := exists_spans c.take.1 hstart hline hcol
    exact ⟨t, (make_eq_ok_iff_spans hfits).mpr ht⟩

/-! ## Which way a request takes -/

/-- The answer to a request is a fault whose text begins with some words, and the counter is left at
`after`. -/
def FaultsWith (answer : Except Fault Token × Counter) (words : String) (after : Counter) : Prop :=
  ∃ f : Fault, answer = (.error f, after) ∧ BeginsWith f.message words

theorem faultsWith_phrase (f : Fault) (after : Counter) :
    FaultsWith (.error f, after) f.phrase after := ⟨f, rfl, f.beginsWith_phrase⟩

theorem not_faultsWith_phrase {f g : Fault} (h : f.phrase ≠ g.phrase) (left after : Counter) :
    ¬FaultsWith (.error f, left) g.phrase after := by
  rintro ⟨f', hanswer, hbegins⟩
  obtain rfl := Except.error.inj (Prod.mk.inj hanswer).1
  exact h (Fault.beginsWith_phrase_iff.mp hbegins)

theorem not_faultsWith_ok (t : Token) (left after : Counter) (words : String) :
    ¬FaultsWith (.ok t, left) words after := by
  rintro ⟨f, hanswer, -⟩
  exact nomatch (Prod.mk.inj hanswer).1

/-- How a request for the token of `text` is answered, by sums that have no limit. -/
structure MakeDecided (text : List Char) (line col start : UInt32) (c : Counter)
    (answer : Except Fault Token × Counter) : Prop where
  /-- The end offset is looked at first, and where it does not fit no identity is taken. -/
  offsetFault : FaultsWith answer "token end offset overflows" c ↔
    UInt32.size ≤ start.toNat + unitCount text
  /-- The end line comes second. -/
  lineFault : start.toNat + unitCount text < UInt32.size →
    (FaultsWith answer "end line overflows" ⟨c.next + 1⟩ ↔
      UInt32.size ≤ line.toNat + breakCount text)
  /-- The end column comes last, and behind a break it always fits. -/
  columnFault : start.toNat + unitCount text < UInt32.size →
    line.toNat + breakCount text < UInt32.size →
    (FaultsWith answer "end column overflows" ⟨c.next + 1⟩ ↔
      '\n' ∉ text ∧ UInt32.size ≤ col.toNat + unitCount text)
  /-- When all of them fit there is a token, and its ends are these sums. -/
  made : start.toNat + unitCount text < UInt32.size →
    line.toNat + breakCount text < UInt32.size →
    ('\n' ∉ text → col.toNat + unitCount text < UInt32.size) →
    ∃ t, answer = (.ok t, ⟨c.next + 1⟩) ∧ t.id = ⟨c.next⟩ ∧ t.Spans text line col start

theorem Ends.decided (hfits : unitCount text < UInt32.size) {r : Except Fault Token × Counter}
    (h : Ends text line col start c r) : MakeDecided text line col start c r := by
  cases h with
  | offset hstart =>
    have hlate := Nat.not_lt_of_le hstart
    exact {
      offsetFault := iff_of_true (faultsWith_phrase _ c) hstart
      lineFault := fun h => absurd h hlate
      columnFault := fun h => absurd h hlate
      made := fun h => absurd h hlate }
  | line hstart hline =>
    have hlate := Nat.not_lt_of_le hline
    have hother : (Fault.endLineOverflow line).phrase ≠ (Fault.endOffsetOverflow start).phrase := by
      simp [Fault.phrase]
    exact {
      offsetFault := iff_of_false (not_faultsWith_phrase hother _ c) (Nat.not_le_of_lt hstart)
      lineFault := fun _ => iff_of_true (faultsWith_phrase _ c.take.2) hline
      columnFault := fun _ h => absurd h hlate
      made := fun _ h => absurd h hlate }
  | column hstart hline hbreak hcol =>
    have hlate := Nat.not_lt_of_le hcol
    have hother : (Fault.endColOverflow col).phrase ≠ (Fault.endOffsetOverflow start).phrase := by
      simp [Fault.phrase]
    have hother' : (Fault.endColOverflow col).phrase ≠ (Fault.endLineOverflow line).phrase := by
      simp [Fault.phrase]
    exact {
      offsetFault := iff_of_false (not_faultsWith_phrase hother _ c) (Nat.not_le_of_lt hstart)
      lineFault := fun _ =>
        iff_of_false (not_faultsWith_phrase hother' _ _) (Nat.not_le_of_lt hline)
      columnFault := fun _ _ => iff_of_true (faultsWith_phrase _ c.take.2) ⟨hbreak, hcol⟩
      made := fun _ _ h => absurd (h hbreak) hlate }
  | token hid hspans =>
    have hcolumn := (columnBehind_lt_iff hfits).mp hspans.column_lt
    exact {
      offsetFault := iff_of_false (not_faultsWith_ok _ _ _ _) (Nat.not_le_of_lt hspans.offset_lt)
      lineFault := fun _ =>
        iff_of_false (not_faultsWith_ok _ _ _ _) (Nat.not_le_of_lt hspans.line_lt)
      columnFault := fun _ _ => iff_of_false (not_faultsWith_ok _ _ _ _)
        (fun h => absurd (hcolumn h.1) (Nat.not_lt_of_le h.2))
      made := fun _ _ _ => ⟨_, rfl, hid, hspans⟩ }

theorem make_decided {raw : Option (List Char)} (hfits : unitCount (raw.getD []) < UInt32.size)
    (line col start : UInt32) (c : Counter) :
    MakeDecided (raw.getD []) line col start c (make .baseline raw line col start c) :=
  ((make_eq_iff_ends hfits).mp rfl).decided hfits

/-- A position is the line and the column of an offset, counted without a limit. -/
def StandsAt (source : List Char) (p : Position) (offset : UInt32) : Prop :=
  p.line.toNat = breakCount (before source offset) + 1 ∧
    p.col.toNat = unitCount (lastLine (before source offset)) + 1

/-- How a request for the fragment between two offsets is answered. -/
structure FragmentDecided (source : List Char) (start stop : UInt32) (c : Counter)
    (answer : Except Fault Token × Counter) : Prop where
  /-- A span that runs backwards is refused before an identity is taken. -/
  reversed : FaultsWith answer "reversed span" c ↔ stop < start
  /-- Any other takes one identity and is answered by a token, whose end offset is the sum that has
  no limit, and so are the lines and columns of both ends. -/
  made : start ≤ stop → ∃ t, answer = (.ok t, ⟨c.next + 1⟩) ∧ t.id = ⟨c.next⟩ ∧
    slice source start stop = .ok t.raw ∧ t.startOffset = start ∧
    t.endOffset.toNat = start.toNat + unitCount t.raw ∧
    StandsAt source t.startPos t.startOffset ∧ StandsAt source t.endPos t.endOffset

theorem fragment_decided {source : List Char} (hlen : unitCount source < UInt32.size - 1)
    (start stop : UInt32) (c : Counter) :
    FragmentDecided source start stop c (fragment .baseline source start stop c) := by
  by_cases hle : start ≤ stop
  · have hfits : unitCount source < UInt32.size := by omega
    obtain ⟨text, -, hslice, hcut, -⟩ := exists_slice_eq hfits hle
    have hanswer : fragment .baseline source start stop c
        = (.ok (ofText .baseline source text start c.take.1), c.take.2) := by
      rw [fragment, hslice]
    have hplace (o : UInt32) : StandsAt source ⟨lineAt source o, colAt source o⟩ o :=
      ⟨toNat_lineAt hlen o, toNat_colAt hlen o⟩
    rw [hanswer]
    exact {
      reversed := iff_of_false (not_faultsWith_ok _ _ _ _) (UInt32.not_lt.mpr hle)
      made := fun _ =>
        ⟨_, rfl, rfl, hslice, rfl, toNat_add_unitLen hfits hcut, hplace _, hplace _⟩ }
  · rw [fragment_of_not_le hle]
    exact {
      reversed := iff_of_true (faultsWith_phrase _ c) (UInt32.not_le.mp hle)
      made := fun h => absurd h hle }

/-- In plain markup, the numbers in a request decide its answer and what becomes of the counter. A
token fails on the first of its three ends that does not fit, a fragment only on a span that runs
backwards. -/
theorem outcomes_decided {raw : Option (List Char)}
    (hraw : unitCount (raw.getD []) < UInt32.size) {source : List Char}
    (hsource : unitCount source < UInt32.size - 1) (line col offset start stop : UInt32)
    (c : Counter) :
    MakeDecided (raw.getD []) line col offset c (make .baseline raw line col offset c) ∧
      FragmentDecided source start stop c (fragment .baseline source start stop c) :=
  ⟨make_decided hraw line col offset c, fragment_decided hsource start stop c⟩

/-- A token whose end offset and end line are the last numbers that fit, and whose start column is.
The fragment begins inside a character. -/
theorem outcomes_decided_limits :
    let text := ['a', '\n', '😀']
    let source := ['😀', 'b']
    let token := make .baseline (some text) 4294967294 4294967295 4294967291 ⟨7⟩
    let part := fragment .baseline source 1 4294967295 ⟨7⟩
    unitCount text < UInt32.size ∧ unitCount source < UInt32.size - 1 ∧
      token = (.ok { id := ⟨7⟩, raw := text, startOffset := 4294967291, endOffset := 4294967295,
                     startLine := 4294967294, endLine := 4294967295, startCol := 4294967295,
                     endCol := 3 }, ⟨8⟩) ∧
      part = (.ok { id := ⟨7⟩, raw := ['b'], startOffset := 1, endOffset := 2, startLine := 1,
                    endLine := 1, startCol := 3, endCol := 3 }, ⟨8⟩) ∧
      MakeDecided text 4294967294 4294967295 4294967291 ⟨7⟩ token ∧
      FragmentDecided source 1 4294967295 ⟨7⟩ part := by
  intro text source token part
  have htext : unitCount ((some text).getD []) < UInt32.size := by decide
  have hsource : unitCount source < UInt32.size - 1 := by decide
  exact ⟨htext, hsource, rfl, rfl, outcomes_decided htext hsource _ _ _ _ _ _⟩

end Token

end MarkupTree
