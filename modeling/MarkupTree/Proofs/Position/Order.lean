import MarkupTree.Position.Rules
import MarkupTree.Proofs.Position.CodeUnits
import Mathlib.Order.Defs.LinearOrder

/-!
# Positions in the order of offsets

A column alone says little about an offset: behind each line break it starts again from one. Line
and column together do follow the offsets. More text in front of a cut ends on a later line, or on
the same line and further to the right, so positions are ordered as the cuts are.

* `Text.end_lt_append` — where more text ends
* `position_le_position_iff`, `position_mono` — positions have the order of the offsets rounded up
* `positionsFollowOffsets` — no position falls, and no two boundaries have the same one
-/

namespace MarkupTree

open Text

/-! ## The order of positions -/

namespace Position

instance : LT Position := ⟨fun p q => p.line < q.line ∨ p.line = q.line ∧ p.col < q.col⟩

variable {p q : Position}

theorem lt_def : p < q ↔ p.line < q.line ∨ p.line = q.line ∧ p.col < q.col := Iff.rfl

instance (p q : Position) : Decidable (p < q) :=
  inferInstanceAs (Decidable (p.line < q.line ∨ p.line = q.line ∧ p.col < q.col))

theorem compare_eq_lt_iff : compare p q = .lt ↔ p < q := by
  show (compare p.line q.line).then (compare p.col q.col) = .lt ↔ p < q
  rw [Ordering.then_eq_lt, Std.compare_eq_lt, Std.compare_eq_iff_eq, Std.compare_eq_lt, lt_def]

theorem compare_eq_eq_iff : compare p q = .eq ↔ p = q := by
  show (compare p.line q.line).then (compare p.col q.col) = .eq ↔ p = q
  obtain ⟨l, c⟩ := p
  obtain ⟨m, d⟩ := q
  rw [Ordering.then_eq_eq, Std.compare_eq_iff_eq, Std.compare_eq_iff_eq, Position.mk.injEq]

/-- The comparison by line and then by column is that of a linear order. -/
instance : LinearOrder Position where
  le_refl p := Or.inr ⟨rfl, UInt32.le_refl p.col⟩
  le_trans p q r := by
    simp only [le_def, UInt32.lt_iff_toNat_lt, UInt32.le_iff_toNat_le, ← UInt32.toNat_inj]
    omega
  lt_iff_le_not_ge p q := by
    simp only [le_def, lt_def, UInt32.lt_iff_toNat_lt, UInt32.le_iff_toNat_le, ← UInt32.toNat_inj]
    omega
  le_antisymm := by
    rintro ⟨l, c⟩ ⟨m, d⟩
    simp only [le_def, UInt32.lt_iff_toNat_lt, UInt32.le_iff_toNat_le, Position.mk.injEq,
      ← UInt32.toNat_inj]
    omega
  le_total := Position.le_total
  toDecidableLE := inferInstance
  toDecidableEq := inferInstance
  toDecidableLT := inferInstance
  toOrd := inferInstance
  compare_eq_compareOfLessAndEq p q := by
    unfold compareOfLessAndEq
    split
    · next hlt => exact compare_eq_lt_iff.mpr hlt
    · next hlt =>
      split
      · next heq => exact compare_eq_eq_iff.mpr heq
      · next heq =>
        cases h : compare p q with
        | lt => exact absurd (compare_eq_lt_iff.mp h) hlt
        | eq => exact absurd (compare_eq_eq_iff.mp h) heq
        | gt => rfl

end Position

/-! ## Where more text ends -/

namespace Text

/-- A text that is not empty holds a break, or otherwise units. -/
theorem breakCount_pos_or_unitCount_pos {t : List Char} (ht : t ≠ []) :
    0 < breakCount t ∨ '\n' ∉ t ∧ breakCount t = 0 ∧ 0 < unitCount t := by
  by_cases hbreak : '\n' ∈ t
  · exact Or.inl (List.count_pos_iff.mpr hbreak)
  · exact Or.inr ⟨hbreak, List.count_eq_zero.mpr hbreak,
      Nat.pos_of_ne_zero (mt unitCount_eq_zero_iff.mp ht)⟩

/-- More text ends on a later line, or on the same line and further to the right. -/
theorem end_lt_append (s : List Char) {t : List Char} (ht : t ≠ []) :
    breakCount s < breakCount (s ++ t) ∨ breakCount s = breakCount (s ++ t) ∧
      unitCount (lastLine s) < unitCount (lastLine (s ++ t)) := by
  rw [breakCount_append]
  rcases breakCount_pos_or_unitCount_pos ht with hpos | ⟨hbreak, hzero, hpos⟩
  · exact Or.inl (by omega)
  · rw [lastLine_append_of_not_mem hbreak, unitCount_append]
    exact Or.inr ⟨by omega, by omega⟩

end Text

/-! ## Positions of offsets -/

open PositionRules (baseline)

section

variable {source : List Char} (hlen : unitCount source < UInt32.size - 1)

include hlen

/-- Behind more text the position is greater. -/
theorem position_lt_position {a b : UInt32}
    (h : roundUp (encode source) a.toNat < roundUp (encode source) b.toNat) :
    baseline.position source a < baseline.position source b := by
  have hfits : unitCount source < UInt32.size := by omega
  rw [← unitCount_before hfits, ← unitCount_before hfits] at h
  obtain ⟨t, ht⟩ : before source a <+: before source b :=
    (prefix_iff_unitCount_le (before_leads_source _ _) (before_leads_source _ _)).mpr
      (Nat.le_of_lt h)
  have hne : t ≠ [] := by
    rintro rfl
    rw [← ht, List.append_nil] at h
    exact Nat.lt_irrefl _ h
  have hend := end_lt_append (before source a) hne
  rw [ht] at hend
  show lineAt source a < lineAt source b ∨
    lineAt source a = lineAt source b ∧ colAt source a < colAt source b
  rw [UInt32.lt_iff_toNat_lt, UInt32.lt_iff_toNat_lt, ← UInt32.toNat_inj, toNat_lineAt hlen,
    toNat_lineAt hlen, toNat_colAt hlen, toNat_colAt hlen]
  omega

/-- Offsets that are rounded to the same boundary have the same position. -/
theorem position_eq_position {a b : UInt32}
    (h : roundUp (encode source) a.toNat = roundUp (encode source) b.toNat) :
    baseline.position source a = baseline.position source b := by
  have hfits : unitCount source < UInt32.size := by omega
  rw [← unitCount_before hfits, ← unitCount_before hfits] at h
  exact PositionRules.baseline_position_congr
    (eq_of_unitCount_eq (before_leads_source _ _) (before_leads_source _ _) h)

/-- Positions have the order of the offsets rounded up. -/
theorem position_le_position_iff {a b : UInt32} :
    baseline.position source a ≤ baseline.position source b ↔
      roundUp (encode source) a.toNat ≤ roundUp (encode source) b.toNat := by
  constructor
  · intro h
    by_contra hlt
    exact absurd (position_lt_position hlen (Nat.lt_of_not_le hlt)) (not_lt_of_ge h)
  · intro h
    rcases Nat.lt_or_eq_of_le h with hlt | heq
    · exact le_of_lt (position_lt_position hlen hlt)
    · exact le_of_eq (position_eq_position hlen heq)

/-- A greater offset has no smaller position. -/
theorem position_mono {a b : UInt32} (hle : a ≤ b) :
    baseline.position source a ≤ baseline.position source b := by
  have hfits : unitCount source < UInt32.size := by omega
  rw [position_le_position_iff hlen, ← unitCount_before hfits, ← unitCount_before hfits]
  exact unitCount_mono (before_prefix_before hfits hle)

end

/-- Lines and columns are in the order of the offsets. -/
structure PositionsFollowOffsets (source : List Char) : Prop where
  /-- A greater offset has no smaller position, also past the end and inside a character. -/
  mono : ∀ a b : UInt32, a ≤ b → baseline.position source a ≤ baseline.position source b
  /-- Of two boundaries the second has the greater position. -/
  strict : ∀ a b : UInt32, a < b → IsBoundary source a.toNat → IsBoundary source b.toNat →
    baseline.position source a < baseline.position source b
  /-- So a boundary is known by its position. -/
  injective : ∀ a b : UInt32, IsBoundary source a.toNat → IsBoundary source b.toNat →
    baseline.position source a = baseline.position source b → a = b

/-- In a source that fits, no position falls, and no two boundaries have the same one. -/
theorem positionsFollowOffsets {source : List Char}
    (hlen : (encode source).length < UInt32.size - 1) : PositionsFollowOffsets source := by
  rw [length_encode] at hlen
  have hstrict (a b : UInt32) (hlt : a < b) (ha : IsBoundary source a.toNat)
      (hb : IsBoundary source b.toNat) :
      baseline.position source a < baseline.position source b := by
    apply position_lt_position hlen
    rw [ha.roundUp_eq, hb.roundUp_eq]
    exact UInt32.lt_iff_toNat_lt.mp hlt
  constructor
  case mono => exact fun _ _ => position_mono hlen
  case strict => exact hstrict
  case injective =>
    intro a b ha hb h
    by_contra hne
    rcases UInt32.lt_or_lt_of_ne hne with hlt | hlt
    · exact absurd h (ne_of_lt (hstrict a b hlt ha hb))
    · exact absurd h.symm (ne_of_lt (hstrict b a hlt hb ha))

/-- The break of a source stands behind an emoji, so the column falls from 3 to 1 where the line
rises. -/
theorem positionsFollowOffsets_emoji :
    let source := ['😀', '\r', '\n', 'b']
    (encode source).length < UInt32.size - 1 ∧
      [0, 1, 2, 3, 4, 5, 9].map (baseline.position source)
        = [⟨1, 1⟩, ⟨1, 3⟩, ⟨1, 3⟩, ⟨1, 4⟩, ⟨2, 1⟩, ⟨2, 2⟩, ⟨2, 2⟩] ∧
      PositionsFollowOffsets source := by
  intro source
  have hlen : (encode source).length < UInt32.size - 1 := by decide
  exact ⟨hlen, by decide, positionsFollowOffsets hlen⟩

end MarkupTree
