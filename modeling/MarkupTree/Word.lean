/-!
# 32-bit numbers

Offsets, lines and columns are 32-bit words. A sum that has to fit is formed by `checkedAdd`.

* `toNat_add_of_lt` — a sum that fits is the sum of the numbers
* `checkedAdd_eq_some_iff` — so is a checked sum
* `checkedAdd_eq_none_iff` — it is missing exactly when that sum needs more than 32 bits
-/

namespace MarkupTree

theorem toNat_add_of_lt {a b : UInt32} (h : a.toNat + b.toNat < UInt32.size) :
    (a + b).toNat = a.toNat + b.toNat := by
  rw [UInt32.toNat_add, Nat.mod_eq_of_lt h]

/-- The sum of two words, if it fits into a word. -/
def checkedAdd (a b : UInt32) : Option UInt32 :=
  if a.toNat + b.toNat < UInt32.size then some (a + b) else none

theorem checkedAdd_eq_some_iff {a b c : UInt32} :
    checkedAdd a b = some c ↔ c.toNat = a.toNat + b.toNat := by
  unfold checkedAdd
  split
  · next h =>
    rw [Option.some.injEq, ← UInt32.toNat_inj, UInt32.toNat_add, Nat.mod_eq_of_lt h]
    exact eq_comm
  · next h =>
    have := c.toNat_lt_size
    constructor
    · intro e; cases e
    · intro e; omega

theorem checkedAdd_eq_none_iff {a b : UInt32} :
    checkedAdd a b = none ↔ UInt32.size ≤ a.toNat + b.toNat := by
  unfold checkedAdd
  split
  · next h => simp; omega
  · next h => simp; omega

/-- The decimal digits of a word. -/
def decimal (n : UInt32) : List Char := Nat.toDigits 10 n.toNat

end MarkupTree
