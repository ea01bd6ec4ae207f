import MarkupTree.Dialect

/-!
# Cutting a text where a part of it ends

The length of a leading part is an offset, and the cut at that offset lies behind the part. So a
text between the lengths of two leading parts is what the longer one has more. In a text of ASCII
characters every number of characters is such an offset.

* `before_append` — the cut at the length of a leading part
* `slice_append` — the text between two such cuts
* `unitLen_of_isAscii` — in ASCII, offsets count characters
-/

namespace MarkupTree

open Text

namespace Text

theorem unitWidth_toNat_pos (c : Char) : 0 < (unitWidth c).toNat := by
  rcases unitWidth_eq c with h | h
  · rw [h]; decide
  · rw [h]; decide

/-! ## The cut behind a leading part -/

/-- The cut is found behind `a`, whatever number of units stands in front. -/
theorem charsFrom_append : ∀ (a b : List Char) (units : UInt32),
    units.toNat + unitCount a < UInt32.size →
      charsFrom units (units + unitLen a) (a ++ b) = a.length
  | [], [], units, _ => rfl
  | [], c :: b, units, _ => by
    rw [unitLen_nil, UInt32.add_zero, List.nil_append, charsFrom, if_pos (UInt32.le_refl units)]
    rfl
  | c :: a, b, units, h => by
    rw [unitCount] at h
    -- no sum on the way needs more than 32 bits, so the sums compare as numbers do
    have hpos := unitWidth_toNat_pos c
    have hlen : (unitLen (c :: a)).toNat = (unitWidth c).toNat + unitCount a := by
      rw [toNat_unitLen (by rw [unitCount]; omega), unitCount]
    have hstep : (units + unitWidth c).toNat = units.toNat + (unitWidth c).toNat :=
      toNat_add_of_lt (by omega)
    have hlt : ¬units + unitLen (c :: a) ≤ units := by
      rw [UInt32.le_iff_toNat_le, toNat_add_of_lt (by omega), hlen]
      omega
    rw [List.cons_append, charsFrom, if_neg hlt, unitLen_cons, ← UInt32.add_assoc,
      charsFrom_append a b (units + unitWidth c) (by rw [hstep]; omega)]
    rfl

theorem charsBefore_append {a : List Char} (b : List Char) (h : unitCount a < UInt32.size) :
    charsBefore (a ++ b) (unitLen a) = a.length := by
  have hfrom := charsFrom_append a b 0 (by simpa using h)
  rwa [UInt32.zero_add] at hfrom

theorem before_append {a : List Char} (b : List Char) (h : unitCount a < UInt32.size) :
    before (a ++ b) (unitLen a) = a := by
  rw [before, charsBefore_append b h, List.take_left]

theorem unitLen_le_unitLen_append {a b : List Char} (h : unitCount (a ++ b) < UInt32.size) :
    unitLen a ≤ unitLen (a ++ b) := by
  rw [UInt32.le_iff_toNat_le, toNat_unitLen h, unitCount_append]
  rw [unitCount_append] at h
  rw [toNat_unitLen (by omega)]
  omega

/-! ## Texts in ASCII -/

theorem unitWidth_of_lt {c : Char} (h : c.toNat < 0x80) : unitWidth c = 1 :=
  if_pos (by omega)

theorem unitCount_of_isAscii : ∀ {s : List Char}, Dialect.isAscii s = true →
    unitCount s = s.length
  | [], _ => rfl
  | c :: s, h => by
    simp only [Dialect.isAscii, List.all_cons, Bool.and_eq_true, decide_eq_true_eq] at h
    rw [unitCount, unitWidth_of_lt h.1, unitCount_of_isAscii (s := s) h.2, List.length_cons,
      Nat.add_comm]
    rfl

/-- In ASCII the length in units is the number of characters. -/
theorem unitLen_of_isAscii : ∀ {s : List Char}, Dialect.isAscii s = true →
    unitLen s = UInt32.ofNat s.length
  | [], _ => rfl
  | c :: s, h => by
    simp only [Dialect.isAscii, List.all_cons, Bool.and_eq_true, decide_eq_true_eq] at h
    rw [unitLen_cons, unitWidth_of_lt h.1, unitLen_of_isAscii (s := s) h.2, List.length_cons,
      UInt32.ofNat_add, UInt32.add_comm]
    rfl

end Text

@[simp] theorem isAscii_append (s t : List Char) :
    Dialect.isAscii (s ++ t) = (Dialect.isAscii s && Dialect.isAscii t) := List.all_append

/-- In a text in ASCII that is not too long, the offsets of a middle part count characters. -/
theorem offsets_of_isAscii {a b c : List Char} (hascii : Dialect.isAscii (a ++ b ++ c) = true)
    (hlen : (a ++ b ++ c).length < UInt32.size) :
    unitCount (a ++ b) < UInt32.size ∧ unitLen a = UInt32.ofNat a.length ∧
      unitLen (a ++ b) = UInt32.ofNat (a.length + b.length) := by
  rw [isAscii_append, Bool.and_eq_true] at hascii
  obtain ⟨hread, -⟩ := hascii
  have hlead : Dialect.isAscii a = true := by
    rw [isAscii_append, Bool.and_eq_true] at hread
    exact hread.1
  rw [List.length_append] at hlen
  rw [unitCount_of_isAscii hread, ← List.length_append]
  exact ⟨by omega, unitLen_of_isAscii hlead, unitLen_of_isAscii hread⟩

/-! ## Slices -/

/-- A middle part of a text is the slice between the lengths of what leads up to its two ends. -/
theorem slice_append {a b c : List Char} (h : unitCount (a ++ b) < UInt32.size) :
    slice (a ++ b ++ c) (unitLen a) (unitLen (a ++ b)) = .ok b := by
  have ha : unitCount a < UInt32.size := by rw [unitCount_append] at h; omega
  rw [slice_of_le (unitLen_le_unitLen_append h), before_append c h, List.append_assoc,
    charsBefore_append (b ++ c) ha, List.drop_left]

end MarkupTree
