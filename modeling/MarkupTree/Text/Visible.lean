/-!
# Making blanks visible

A dump is read line by line, so a text in it may not hold blanks: a line break is drawn as `⏎`, a
tab as `→` and every other blank as `␣`, each a character of one code unit for another.

* `isBlank_mark` — a mark is not blank
* `visible_visible` — nothing is marked twice
* `visible_eq_self` — a text without blanks stays as it is
-/

namespace MarkupTree.Text

/-- The ranges of blank characters, both ends included: tab to carriage return, the space
separators, the line and the paragraph separator, and U+FEFF. U+0085 is not among them. -/
def blankRanges : List (Nat × Nat) :=
  [(0x9, 0xD), (0x20, 0x20), (0xA0, 0xA0), (0x1680, 0x1680), (0x2000, 0x200A), (0x2028, 0x2029),
   (0x202F, 0x202F), (0x205F, 0x205F), (0x3000, 0x3000), (0xFEFF, 0xFEFF)]

/-- Whether a character is blank. -/
def isBlank (c : Char) : Bool := blankRanges.any fun r => r.1 ≤ c.toNat && c.toNat ≤ r.2

/-- The character drawn for `c`. -/
def mark (c : Char) : Char :=
  if c = '\n' then '⏎' else if c = '\t' then '→' else if isBlank c then '␣' else c

/-- The text with its blanks drawn. -/
def visible (s : List Char) : List Char := s.map mark

theorem isBlank_mark (c : Char) : isBlank (mark c) = false := by
  unfold mark
  split
  · decide
  · split
    · decide
    · split
      · decide
      · next h => simpa using h

theorem mark_of_not_isBlank {c : Char} (h : isBlank c = false) : mark c = c := by
  unfold mark
  split
  · next e => subst e; exact absurd h (by decide)
  · split
    · next e => subst e; exact absurd h (by decide)
    · simp [h]

theorem visible_visible (s : List Char) : visible (visible s) = visible s := by
  simp [visible, mark_of_not_isBlank (isBlank_mark _)]

theorem visible_eq_self {s : List Char} (h : ∀ c ∈ s, isBlank c = false) : visible s = s := by
  rw [visible, List.map_congr_left (fun c hc => mark_of_not_isBlank (h c hc)), List.map_id']

end MarkupTree.Text
