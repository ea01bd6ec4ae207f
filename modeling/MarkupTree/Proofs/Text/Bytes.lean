import MarkupTree.Proofs.Position.CodeUnits
import Mathlib.Data.String.Basic

/-!
# Byte indices

A text is stored in UTF-8, and a part of it is named by the byte index at which it begins and the
one at which it ends. An index inside a character or past the end names nothing, and neither do two
indices in the wrong order.

* `splitByte?_eq_some_iff` — an index splits a text when it is the length of a leading part
* `part?_eq_some_iff` — two indices name a part when they are lengths of what leads up to its ends
* `utf8Len_of_isAscii` — in ASCII, byte indices count characters
* `lastBreak?_eq_none_iff` — an index is found where there is a break
* `part?_through_lastBreak`, `part?_behind_lastBreak` — the complete lines end at the last break, and
  the last line stands behind it
-/

namespace MarkupTree.Text

open String (utf8Len)

/-! ## Parts -/

/-- The text in front of a byte index and the text from it on. -/
def splitByte? : List Char → Nat → Option (List Char × List Char)
  | s, 0 => some ([], s)
  | [], _ + 1 => none
  | c :: s, n + 1 =>
    if c.utf8Size ≤ n + 1 then (splitByte? s (n + 1 - c.utf8Size)).map fun p => (c :: p.1, p.2)
    else none

/-- The text between two byte indices. -/
def part? (s : List Char) (start stop : Nat) : Option (List Char) :=
  if start ≤ stop then do
    let (front, _) ← splitByte? s stop
    let (_, middle) ← splitByte? front start
    return middle
  else none

theorem splitByte?_append : ∀ a b : List Char, splitByte? (a ++ b) (utf8Len a) = some (a, b)
  | [], b => by rw [List.nil_append, String.utf8Len_nil, splitByte?]
  | c :: a, b => by
    have hpos := c.utf8Size_pos
    obtain ⟨n, hn⟩ : ∃ n, utf8Len (c :: a) = n + 1 :=
      ⟨utf8Len (c :: a) - 1, by rw [String.utf8Len_cons]; omega⟩
    have hrest : n + 1 - c.utf8Size = utf8Len a := by
      rw [← hn, String.utf8Len_cons, Nat.add_sub_cancel]
    have hle : c.utf8Size ≤ n + 1 := by
      rw [← hn, String.utf8Len_cons]
      exact Nat.le_add_left _ _
    rw [hn, List.cons_append, splitByte?, if_pos hle, hrest, splitByte?_append a b]
    rfl

/-- An index splits a text exactly when it is the length of a leading part. -/
theorem splitByte?_eq_some_iff {s a b : List Char} {n : Nat} :
    splitByte? s n = some (a, b) ↔ s = a ++ b ∧ utf8Len a = n := by
  constructor
  · intro h
    induction s generalizing n a with
    | nil =>
      cases n with
      | zero =>
        rw [splitByte?, Option.some.injEq, Prod.mk.injEq] at h
        rw [← h.1, ← h.2]
        exact ⟨rfl, rfl⟩
      | succ n => cases h
    | cons c s ih =>
      cases n with
      | zero =>
        rw [splitByte?, Option.some.injEq, Prod.mk.injEq] at h
        rw [← h.1, ← h.2]
        exact ⟨rfl, rfl⟩
      | succ n =>
        rw [splitByte?] at h
        split at h
        · next hle =>
          obtain ⟨⟨a', b'⟩, hsplit, he⟩ := Option.map_eq_some_iff.mp h
          simp only [Prod.mk.injEq] at he
          obtain ⟨rfl, rfl⟩ := he
          obtain ⟨rfl, hlen⟩ := ih hsplit
          refine ⟨rfl, ?_⟩
          rw [String.utf8Len_cons]
          omega
        · cases h
  · rintro ⟨rfl, rfl⟩
    exact splitByte?_append a b

/-- There is a cut in front of each letter and at the end, but none inside the second letter. -/
example : [0, 1, 2, 3, 4].map (fun n => (splitByte? ['a', 'é'] n).isSome)
    = [true, true, false, true, false] := by decide

/-- Two indices name a part exactly when they are the lengths of what leads up to its two ends. -/
theorem part?_eq_some_iff {s m : List Char} {start stop : Nat} :
    part? s start stop = some m ↔
      ∃ a c, s = a ++ m ++ c ∧ utf8Len a = start ∧ utf8Len (a ++ m) = stop := by
  constructor
  · intro h
    unfold part? at h
    split at h
    · obtain ⟨⟨front, c⟩, hfront, hrest⟩ := Option.bind_eq_some_iff.mp h
      obtain ⟨⟨a, middle⟩, hmiddle, hpart⟩ := Option.bind_eq_some_iff.mp hrest
      obtain ⟨rfl, hstop⟩ := splitByte?_eq_some_iff.mp hfront
      obtain ⟨rfl, hstart⟩ := splitByte?_eq_some_iff.mp hmiddle
      obtain rfl := Option.some.inj hpart
      exact ⟨a, c, rfl, hstart, hstop⟩
    · cases h
  · rintro ⟨a, c, rfl, rfl, rfl⟩
    have hle : utf8Len a ≤ utf8Len (a ++ m) := by
      rw [String.utf8Len_append]
      exact Nat.le_add_right _ _
    rw [part?, if_pos hle, splitByte?_append (a ++ m) c]
    show (splitByte? (a ++ m) (utf8Len a)).bind (fun p => some p.2) = some m
    rw [splitByte?_append a m]
    rfl

theorem part?_append (a b c : List Char) :
    part? (a ++ b ++ c) (utf8Len a) (utf8Len (a ++ b)) = some b :=
  part?_eq_some_iff.mpr ⟨a, c, rfl, rfl, rfl⟩

/-- In ASCII a byte index is a number of characters. -/
theorem utf8Len_of_isAscii : ∀ {s : List Char}, Dialect.isAscii s = true → utf8Len s = s.length
  | [], _ => rfl
  | c :: s, h => by
    simp only [Dialect.isAscii, List.all_cons, Bool.and_eq_true, decide_eq_true_eq] at h
    have hone : c.utf8Size = 1 := Char.utf8Size_eq_one_iff.mpr (by
      rw [UInt32.le_iff_toNat_le]
      exact Nat.le_of_lt_succ h.1)
    rw [String.utf8Len_cons, utf8Len_of_isAscii (s := s) h.2, hone, List.length_cons]

/-! ## The last line -/

/-- The byte index of the last line break. -/
def lastBreak? : List Char → Option Nat
  | [] => none
  | c :: s =>
    match lastBreak? s with
    | some n => some (n + c.utf8Size)
    | none => if c = '\n' then some 0 else none

theorem lastBreak?_eq_none_iff {s : List Char} : lastBreak? s = none ↔ '\n' ∉ s := by
  induction s with
  | nil => simp [lastBreak?]
  | cons c s ih =>
    rw [lastBreak?, List.mem_cons, not_or, ← ih]
    cases lastBreak? s with
    | none => simp [eq_comm]
    | some n => simp

theorem lastBreak?_append {s : List Char} (h : '\n' ∉ s) :
    ∀ p : List Char, lastBreak? (p ++ '\n' :: s) = some (utf8Len p)
  | [] => by
    rw [List.nil_append, lastBreak?, lastBreak?_eq_none_iff.mpr h]
    rfl
  | c :: p => by
    rw [List.cons_append, lastBreak?, lastBreak?_append h p]
    rfl

/-- The break that is found stands at the end of the complete lines. -/
theorem exists_throughBreak_eq {s : List Char} {n : Nat} (h : lastBreak? s = some n) :
    ∃ p, throughBreak s = p ++ ['\n'] ∧ utf8Len p = n := by
  have hlines := throughBreak_append_lastLine s
  rcases throughBreak_eq s with hnone | ⟨p, hp⟩
  · rw [hnone, List.nil_append] at hlines
    rw [lastBreak?_eq_none_iff.mpr (hlines ▸ not_mem_lastLine s)] at h
    exact nomatch h
  · have hindex := lastBreak?_append (not_mem_lastLine s) p
    rw [← List.singleton_append, ← List.append_assoc, ← hp, hlines, h, Option.some.injEq] at hindex
    exact ⟨p, hp, hindex.symm⟩

section

variable {s : List Char} {n : Nat} (h : lastBreak? s = some n)

include h

theorem utf8Len_throughBreak : utf8Len (throughBreak s) = n + 1 := by
  obtain ⟨p, hp, rfl⟩ := exists_throughBreak_eq h
  rw [hp, String.utf8Len_append]
  rfl

/-- The complete lines of a text with a break end at the byte behind the last break. -/
theorem part?_through_lastBreak : part? s 0 (n + 1) = some (throughBreak s) := by
  have hpart := part?_append [] (throughBreak s) (lastLine s)
  rwa [List.nil_append, throughBreak_append_lastLine, utf8Len_throughBreak h] at hpart

/-- The last line of a text with a break begins at the byte behind the last break. -/
theorem part?_behind_lastBreak : part? s (n + 1) (utf8Len s) = some (lastLine s) := by
  have hpart := part?_append (throughBreak s) (lastLine s) []
  rwa [List.append_nil, throughBreak_append_lastLine, utf8Len_throughBreak h] at hpart

end

end MarkupTree.Text
