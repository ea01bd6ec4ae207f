import MarkupTree.Fault
import MarkupTree.Position
import MarkupTree.Text.Units

/-!
# Tokens

A token is a piece of source text together with the place it was taken from: offsets, lines and
columns of both ends. A token of no width marks what the source leaves out.

* `wellFormed_iff` — the offsets of a well-formed token span as many units as its text has
* `length_eq_ok_iff` — a token has a length exactly when it does not run backwards
* `contains_iff` — a token holds its start and not its end
-/

namespace MarkupTree

/-- A piece of source text and where it stands. -/
structure Token where
  id : TokenId
  raw : List Char
  startOffset : UInt32
  endOffset : UInt32
  startLine : UInt32
  endLine : UInt32
  startCol : UInt32
  endCol : UInt32
deriving DecidableEq, Repr

namespace Token

/-- The position of the first character. -/
def startPos (t : Token) : Position := ⟨t.startLine, t.startCol⟩

/-- The position behind the last character. -/
def endPos (t : Token) : Position := ⟨t.endLine, t.endCol⟩

/-- The number of units between the two offsets. -/
def length (t : Token) : Except Fault UInt32 :=
  if t.startOffset ≤ t.endOffset then .ok (t.endOffset - t.startOffset)
  else .error (.negativeLength t.id t.startOffset t.endOffset)

theorem length_eq_ok_iff {t : Token} {n : UInt32} :
    t.length = .ok n ↔ t.startOffset.toNat + n.toNat = t.endOffset.toNat := by
  unfold length
  split
  · next h =>
    rw [Except.ok.injEq, ← UInt32.toNat_inj, UInt32.toNat_sub_of_le _ _ h]
    have := UInt32.le_iff_toNat_le.mp h
    omega
  · next h =>
    have := mt UInt32.le_iff_toNat_le.mpr h
    constructor
    · intro e; cases e
    · intro e; omega

/-- Whether the token has no width. -/
def isEmpty (t : Token) : Bool := t.startOffset == t.endOffset

/-- Whether an offset lies inside the token. -/
def contains (t : Token) (offset : UInt32) : Bool :=
  t.startOffset ≤ offset && offset < t.endOffset

theorem contains_iff {t : Token} {offset : UInt32} :
    t.contains offset = true ↔ t.startOffset ≤ offset ∧ offset < t.endOffset := by
  simp [contains]

/-- Whether the offsets agree with the length of the text. -/
def wellFormed (t : Token) : Bool :=
  t.startOffset ≤ t.endOffset && t.endOffset - t.startOffset == Text.unitLen t.raw

theorem wellFormed_iff {t : Token} :
    t.wellFormed = true ↔
      t.startOffset.toNat + (Text.unitLen t.raw).toNat = t.endOffset.toNat := by
  simp only [wellFormed, Bool.and_eq_true, decide_eq_true_eq, beq_iff_eq]
  constructor
  · rintro ⟨hle, he⟩
    rw [← he, UInt32.toNat_sub_of_le _ _ hle]
    have := UInt32.le_iff_toNat_le.mp hle
    omega
  · intro h
    have hle : t.startOffset ≤ t.endOffset := UInt32.le_iff_toNat_le.mpr (by omega)
    refine ⟨hle, ?_⟩
    rw [← UInt32.toNat_inj, UInt32.toNat_sub_of_le _ _ hle]
    omega

end Token

end MarkupTree
