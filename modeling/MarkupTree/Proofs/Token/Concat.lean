import MarkupTree.Proofs.Token.Outcome

/-!
# Tokens of joined texts

A text in two parts can be made one token, or two of which the second starts where the first ends.
The ends of a text are sums, and both ways form the same ones. But a break in the second part lets
the column in front of it be forgotten: that column may be too large for a token of the first part,
while a token of the whole never needs it.

* `columnBehind_append` — the column behind two texts, one after the other
* `Spans.append` — the token of both parts, from the tokens of each
* `exists_makeTwo_iff` — two tokens ask for one sum more than one token
* `overhang_iff` — where that sum is what fails
* `makeTwo_decided` — the one token has the ends of the two, and when there are two and when one
-/

namespace MarkupTree

open Text

theorem columnBehind_append (s t : List Char) (col : Nat) :
    columnBehind (s ++ t) col = columnBehind t (columnBehind s col) := by
  by_cases ht : '\n' ∈ t
  · rw [columnBehind_of_mem ht, columnBehind_of_mem (List.mem_append_right s ht),
      lastLine_append_of_mem ht]
  · rw [columnBehind_of_not_mem ht]
    by_cases hs : '\n' ∈ s
    · rw [columnBehind_of_mem (List.mem_append_left t hs), columnBehind_of_mem hs,
        lastLine_append_of_not_mem ht, unitCount_append, Nat.add_assoc]
    · have hboth : '\n' ∉ s ++ t := fun h => (List.mem_append.mp h).elim hs ht
      rw [columnBehind_of_not_mem hboth, columnBehind_of_not_mem hs, unitCount_append,
        Nat.add_assoc]

namespace Token

/-- The tokens of two texts, the second of which starts where the first ends. -/
def makeTwo (first second : List Char) (line col start : UInt32) (c c' : Counter) :
    Except Fault (Token × Token) := do
  let t ← (make .baseline (some first) line col start c).1
  let u ← (make .baseline (some second) t.endLine t.endCol t.endOffset c').1
  return (t, u)

variable {first second : List Char} {line col start : UInt32} {c c' : Counter}

theorem makeTwo_eq_ok_iff {t u : Token} :
    makeTwo first second line col start c c' = .ok (t, u) ↔
      (make .baseline (some first) line col start c).1 = .ok t ∧
        (make .baseline (some second) t.endLine t.endCol t.endOffset c').1 = .ok u := by
  unfold makeTwo
  cases (make .baseline (some first) line col start c).1 with
  | error f => exact iff_of_false (nomatch ·) (nomatch ·.1)
  | ok t' =>
    simp only [bind, Except.bind, Except.ok.injEq]
    constructor
    · intro h
      split at h
      · exact nomatch h
      · next u' hu =>
        obtain ⟨rfl, rfl⟩ := Prod.mk.inj (Except.ok.inj h)
        exact ⟨rfl, hu⟩
    · rintro ⟨rfl, hu⟩
      rw [hu]
      rfl

/-- The token that reaches from the start of one token to the end of another. -/
def upTo (t u : Token) (id : TokenId) : Token :=
  { id, raw := t.raw ++ u.raw, startOffset := t.startOffset, endOffset := u.endOffset,
    startLine := t.startLine, endLine := u.endLine, startCol := t.startCol, endCol := u.endCol }

theorem Spans.append {t u : Token} (ht : t.Spans first line col start)
    (hu : u.Spans second t.endLine t.endCol t.endOffset) (id : TokenId) :
    (t.upTo u id).Spans (first ++ second) line col start where
  raw := by rw [upTo, ht.raw, hu.raw]
  startOffset := ht.startOffset
  startLine := ht.startLine
  startCol := ht.startCol
  endOffset := by rw [upTo, hu.endOffset, ht.endOffset, unitCount_append, Nat.add_assoc]
  endLine := by rw [upTo, hu.endLine, ht.endLine, breakCount_append, Nat.add_assoc]
  endCol := by rw [upTo, hu.endCol, ht.endCol, columnBehind_append]

section

variable (hfits : unitCount (first ++ second) < UInt32.size)

include hfits

/-- From two tokens there is the one of both texts. -/
theorem make_append {t u : Token} (h : makeTwo first second line col start c c' = .ok (t, u))
    (d : Counter) :
    (make .baseline (some (first ++ second)) line col start d).1 = .ok (t.upTo u d.take.1) := by
  have hparts := unitCount_append first second
  obtain ⟨ht, hu⟩ := makeTwo_eq_ok_iff.mp h
  obtain ⟨-, ht⟩ := (make_eq_ok_iff_spans (by omega)).mp ht
  obtain ⟨-, hu⟩ := (make_eq_ok_iff_spans (by omega)).mp hu
  exact (make_eq_ok_iff_spans hfits).mpr ⟨rfl, ht.append hu _⟩

/-- There are two tokens exactly when there is one and the column between them fits. -/
theorem exists_makeTwo_iff (d : Counter) :
    (∃ t u, makeTwo first second line col start c c' = .ok (t, u)) ↔
      (∃ w, (make .baseline (some (first ++ second)) line col start d).1 = .ok w) ∧
        columnBehind first col.toNat < UInt32.size := by
  have hparts := unitCount_append first second
  have hfirst : unitCount first < UInt32.size := by omega
  have hsecond : unitCount second < UInt32.size := by omega
  constructor
  · rintro ⟨t, u, h⟩
    obtain ⟨ht, -⟩ := makeTwo_eq_ok_iff.mp h
    obtain ⟨-, hspans⟩ := (make_eq_ok_iff_spans hfirst).mp ht
    exact ⟨⟨_, make_append hfits h d⟩, hspans.column_lt⟩
  · rintro ⟨hwhole, hcol⟩
    obtain ⟨hstart, hline, hend⟩ := (exists_make_eq_ok_iff hfits).mp hwhole
    rw [unitCount_append] at hstart
    rw [breakCount_append] at hline
    rw [columnBehind_append] at hend
    obtain ⟨t, ht⟩ : ∃ t, (make .baseline (some first) line col start c).1 = .ok t :=
      (exists_make_eq_ok_iff hfirst).mpr ⟨by omega, by omega, hcol⟩
    obtain ⟨-, hspans⟩ := (make_eq_ok_iff_spans hfirst).mp ht
    -- the sums for the second token go on where those for the first have ended
    rw [← Nat.add_assoc, ← hspans.endOffset] at hstart
    rw [← Nat.add_assoc, ← hspans.endLine] at hline
    rw [← hspans.endCol] at hend
    obtain ⟨u, hu⟩ := (exists_make_eq_ok_iff (c := c') hsecond).mpr ⟨hstart, hline, hend⟩
    exact ⟨t, u, makeTwo_eq_ok_iff.mpr ⟨ht, hu⟩⟩

/-- There is one token and there are not two exactly when the column between the texts does not fit
and the second text lets it be forgotten. -/
theorem overhang_iff (d : Counter) :
    ((∃ w, (make .baseline (some (first ++ second)) line col start d).1 = .ok w) ∧
        ∃ f, makeTwo first second line col start c c' = .error f) ↔
      ('\n' ∉ first ∧ UInt32.size ≤ col.toNat + unitCount first) ∧ '\n' ∈ second ∧
        start.toNat + unitCount (first ++ second) < UInt32.size ∧
        line.toNat + breakCount (first ++ second) < UInt32.size := by
  have hparts := unitCount_append first second
  have hlate : ¬columnBehind first col.toNat < UInt32.size ↔
      '\n' ∉ first ∧ UInt32.size ≤ col.toNat + unitCount first := by
    rw [columnBehind_lt_iff (by omega)]
    push Not
    rfl
  constructor
  · rintro ⟨hwhole, f, hf⟩
    obtain ⟨hstart, hline, hend⟩ := (exists_make_eq_ok_iff hfits).mp hwhole
    have hcol : ¬columnBehind first col.toNat < UInt32.size := by
      intro hcol
      obtain ⟨t, u, h⟩ := (exists_makeTwo_iff hfits d).mpr ⟨hwhole, hcol⟩
      exact nomatch h.symm.trans hf
    obtain ⟨hnone, hover⟩ := hlate.mp hcol
    refine ⟨⟨hnone, hover⟩, ?_, hstart, hline⟩
    -- without a break in either part, the column would be too large behind both as well
    by_contra hsecond
    rw [columnBehind_append, columnBehind_of_not_mem hsecond] at hend
    omega
  · rintro ⟨hover, hsecond, hstart, hline⟩
    have hend : columnBehind (first ++ second) col.toNat < UInt32.size :=
      (columnBehind_lt_iff hfits).mpr (absurd (List.mem_append_right first hsecond))
    refine ⟨(exists_make_eq_ok_iff hfits).mpr ⟨hstart, hline, hend⟩, ?_⟩
    cases h : makeTwo first second line col start c c' with
    | error f => exact ⟨f, rfl⟩
    | ok p => exact absurd ((exists_makeTwo_iff hfits d).mp ⟨_, _, h⟩).2 (hlate.mpr hover)

end

/-- How two tokens and the token of both texts go together. -/
structure MakeTwoDecided (first second : List Char) (line col start : UInt32)
    (c c' d : Counter) : Prop where
  /-- From the two tokens there is the one, from the start of the first to the end of the second. -/
  joined : ∀ t u, makeTwo first second line col start c c' = .ok (t, u) →
    ∃ w, (make .baseline (some (first ++ second)) line col start d).1 = .ok w ∧
      w.raw = first ++ second ∧ w.startOffset = t.startOffset ∧ w.startPos = t.startPos ∧
      w.endOffset = u.endOffset ∧ w.endPos = u.endPos
  /-- The one is made and the two are not exactly when the column behind the first text does not
  fit, the second text has a break, and the offset and the line behind both fit. -/
  overhang : ((∃ w, (make .baseline (some (first ++ second)) line col start d).1 = .ok w) ∧
      ∃ f, makeTwo first second line col start c c' = .error f) ↔
    FaultsWith (make .baseline (some first) line col start c) "end column overflows" ⟨c.next + 1⟩ ∧
      '\n' ∉ first ∧ '\n' ∈ second ∧
      start.toNat + unitCount (first ++ second) < UInt32.size ∧
      line.toNat + breakCount (first ++ second) < UInt32.size
  /-- In every other case the one fails exactly when the two do. -/
  otherwise : ¬((∃ w, (make .baseline (some (first ++ second)) line col start d).1 = .ok w) ∧
      ∃ f, makeTwo first second line col start c c' = .error f) →
    ((∃ f, (make .baseline (some (first ++ second)) line col start d).1 = .error f) ↔
      ∃ f, makeTwo first second line col start c c' = .error f)

/-- In plain markup, tokens of texts that follow each other make up the token of the joined text.
Only a column that the second text lets be forgotten can keep the two from being made and not the
one. -/
theorem makeTwo_decided (hfits : unitCount (first ++ second) < UInt32.size)
    (line col start : UInt32) (c c' d : Counter) :
    MakeTwoDecided first second line col start c c' d := by
  have hparts := unitCount_append first second
  have hbreaks := breakCount_append first second
  have hfirst : unitCount first < UInt32.size := by omega
  have hraw : unitCount ((some first).getD []) < UInt32.size := hfirst
  have hdecided : MakeDecided first line col start c
      (make .baseline (some first) line col start c) := make_decided hraw line col start c
  constructor
  case joined =>
    intro t u h
    have hw := make_append hfits h d
    obtain ⟨-, hspans⟩ := (make_eq_ok_iff_spans hfits).mp hw
    exact ⟨_, hw, hspans.raw, rfl, rfl, rfl, rfl⟩
  case overhang =>
    rw [overhang_iff hfits]
    constructor
    · rintro ⟨hover, hsecond, hstart, hline⟩
      have hfault := (hdecided.columnFault (by omega) (by omega)).mpr hover
      exact ⟨hfault, hover.1, hsecond, hstart, hline⟩
    · rintro ⟨hfault, -, hsecond, hstart, hline⟩
      exact ⟨(hdecided.columnFault (by omega) (by omega)).mp hfault, hsecond, hstart, hline⟩
  case otherwise =>
    intro hnot
    constructor
    · rintro ⟨f, hf⟩
      cases h : makeTwo first second line col start c c' with
      | error g => exact ⟨g, rfl⟩
      | ok p => exact nomatch hf.symm.trans (make_append hfits h d)
    · intro hchain
      cases h : (make .baseline (some (first ++ second)) line col start d).1 with
      | error g => exact ⟨g, rfl⟩
      | ok w => exact absurd ⟨⟨w, h⟩, hchain⟩ hnot

/-- In column 4 both texts have a token. In a column so large that the first text ends past the last
one, only the joined text has. -/
theorem makeTwo_decided_overhang :
    let first := ['😀', 'a']
    let second := ['\n', 'b']
    unitCount (first ++ second) < UInt32.size ∧
      makeTwo first second 1 4 9 ⟨2⟩ ⟨3⟩
        = .ok (⟨⟨2⟩, first, 9, 12, 1, 1, 4, 7⟩, ⟨⟨3⟩, second, 12, 14, 1, 2, 7, 2⟩) ∧
      (make .baseline (some (first ++ second)) 1 4 9 ⟨4⟩).1
        = .ok ⟨⟨4⟩, first ++ second, 9, 14, 1, 2, 4, 2⟩ ∧
      MakeTwoDecided first second 1 4 9 ⟨2⟩ ⟨3⟩ ⟨4⟩ ∧
      makeTwo first second 1 4294967293 9 ⟨2⟩ ⟨3⟩ = .error (.endColOverflow 4294967293) ∧
      (make .baseline (some (first ++ second)) 1 4294967293 9 ⟨4⟩).1
        = .ok ⟨⟨4⟩, first ++ second, 9, 14, 1, 2, 4294967293, 2⟩ ∧
      MakeTwoDecided first second 1 4294967293 9 ⟨2⟩ ⟨3⟩ ⟨4⟩ := by
  intro first second
  have hfits : unitCount (first ++ second) < UInt32.size := by decide
  exact ⟨hfits, rfl, rfl, makeTwo_decided hfits _ _ _ _ _ _, rfl, rfl,
    makeTwo_decided hfits _ _ _ _ _ _⟩

end Token

end MarkupTree
