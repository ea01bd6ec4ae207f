import MarkupTree.Word

/-!
# Line and column

A position is a pair of a line and a column, both counted from one. Positions are ordered by line
and then by column.

* `Position.le_total` — any two positions are ordered
* `Position.sorted_perm` — sorting loses nothing
-/

namespace MarkupTree

/-- A line and a column of it. -/
structure Position where
  line : UInt32
  col : UInt32
deriving DecidableEq, Repr

namespace Position

/-- The written form: line, colon, column. -/
def display (p : Position) : List Char := decimal p.line ++ [':'] ++ decimal p.col

instance : Ord Position := ⟨fun p q => (compare p.line q.line).then (compare p.col q.col)⟩

instance : LE Position := ⟨fun p q => p.line < q.line ∨ p.line = q.line ∧ p.col ≤ q.col⟩

theorem le_def {p q : Position} : p ≤ q ↔ p.line < q.line ∨ p.line = q.line ∧ p.col ≤ q.col :=
  Iff.rfl

instance (p q : Position) : Decidable (p ≤ q) :=
  inferInstanceAs (Decidable (p.line < q.line ∨ p.line = q.line ∧ p.col ≤ q.col))

theorem le_total (p q : Position) : p ≤ q ∨ q ≤ p := by
  simp only [le_def, UInt32.lt_iff_toNat_lt, UInt32.le_iff_toNat_le, ← UInt32.toNat_inj]
  omega

/-- The positions in ascending order. -/
def sorted (ps : List Position) : List Position := ps.mergeSort fun p q => p ≤ q

theorem sorted_perm (ps : List Position) : (sorted ps).Perm ps := List.mergeSort_perm ..

/-- How many different positions a list holds. -/
def distinctCount (ps : List Position) : Nat := (sorted ps).eraseReps.length

end Position

end MarkupTree
