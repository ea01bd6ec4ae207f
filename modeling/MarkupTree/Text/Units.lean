/-!
# UTF-16 code units

Offsets, lengths and columns count the UTF-16 code units of a text: one for a character of the
basic plane, two for any other. A text is a `List Char`, so it never holds half a surrogate pair.

Counts are 32-bit words and every sum is taken modulo `2 ^ 32`. `unitCount` is the number itself.

* `toNat_unitLen` — the word is the number, as long as the number fits
* `unitLen_append` — lengths add up
* `charsBefore_le_length` — a cut lies inside the text
-/

namespace MarkupTree.Text

/-! ## Lengths -/

/-- The number of code units of a character. -/
def unitWidth (c : Char) : UInt32 := if c.toNat < 0x10000 then 1 else 2

theorem unitWidth_eq (c : Char) : unitWidth c = 1 ∨ unitWidth c = 2 := by
  unfold unitWidth
  split
  · exact Or.inl rfl
  · exact Or.inr rfl

/-- The number of code units of a text. -/
def unitCount : List Char → Nat
  | [] => 0
  | c :: cs => (unitWidth c).toNat + unitCount cs

/-- The number of code units of a text, as a running sum of 32-bit words. -/
def unitLen (s : List Char) : UInt32 :=
  s.foldl (fun units c => units + unitWidth c) 0

theorem foldl_unitWidth : ∀ (s : List Char) (n : UInt32),
    s.foldl (fun units c => units + unitWidth c) n = n + unitLen s
  | [], n => by simp [unitLen]
  | c :: cs, n => by
    have h : unitLen (c :: cs) = cs.foldl (fun units c => units + unitWidth c) (0 + unitWidth c) :=
      rfl
    rw [h, List.foldl_cons, foldl_unitWidth cs, foldl_unitWidth cs, UInt32.zero_add,
      UInt32.add_assoc]

@[simp] theorem unitLen_nil : unitLen [] = 0 := rfl

@[simp] theorem unitLen_cons (c : Char) (cs : List Char) :
    unitLen (c :: cs) = unitWidth c + unitLen cs := by
  rw [unitLen, List.foldl_cons, foldl_unitWidth, UInt32.zero_add]

theorem unitLen_append (s t : List Char) : unitLen (s ++ t) = unitLen s + unitLen t := by
  rw [unitLen, List.foldl_append, foldl_unitWidth]
  rfl

@[simp] theorem unitCount_append (s t : List Char) :
    unitCount (s ++ t) = unitCount s + unitCount t := by
  induction s with
  | nil => simp [unitCount]
  | cons c cs ih => simp [unitCount, ih, Nat.add_assoc]

theorem toNat_unitLen_mod (s : List Char) : (unitLen s).toNat = unitCount s % UInt32.size := by
  induction s with
  | nil => rfl
  | cons c cs ih => rw [unitLen_cons, UInt32.toNat_add, ih, unitCount, Nat.add_mod_mod]

/-- Below `2 ^ 32` units the word holds the number itself. -/
theorem toNat_unitLen {s : List Char} (h : unitCount s < UInt32.size) :
    (unitLen s).toNat = unitCount s := by
  rw [toNat_unitLen_mod, Nat.mod_eq_of_lt h]

/-! ## Cutting at an offset -/

/-- How many characters of a text begin before `offset`, when `units` code units stand in front
of it. -/
def charsFrom (units offset : UInt32) : List Char → Nat
  | [] => 0
  | c :: cs => if offset ≤ units then 0 else charsFrom (units + unitWidth c) offset cs + 1

/--
The number of characters in front of the cut at `offset`.

An offset inside a surrogate pair cuts behind that character, and one past the end cuts at the
end.
-/
def charsBefore (source : List Char) (offset : UInt32) : Nat := charsFrom 0 offset source

theorem charsFrom_le_length : ∀ (units offset : UInt32) (s : List Char),
    charsFrom units offset s ≤ s.length
  | _, _, [] => Nat.le_refl _
  | units, offset, c :: cs => by
    rw [charsFrom]
    split
    · exact Nat.zero_le _
    · exact Nat.succ_le_succ (charsFrom_le_length _ offset cs)

theorem charsBefore_le_length (source : List Char) (offset : UInt32) :
    charsBefore source offset ≤ source.length :=
  charsFrom_le_length 0 offset source

/-- The text in front of the cut at `offset`. -/
def before (source : List Char) (offset : UInt32) : List Char :=
  source.take (charsBefore source offset)

theorem before_leads_source (source : List Char) (offset : UInt32) :
    before source offset <+: source :=
  List.take_prefix _ _

@[simp] theorem length_before (source : List Char) (offset : UInt32) :
    (before source offset).length = charsBefore source offset := by
  rw [before, List.length_take, Nat.min_eq_left (charsBefore_le_length source offset)]

end MarkupTree.Text
