import MarkupTree.Dump
import MarkupTree.Proofs.Text.Drawn
import MarkupTree.Proofs.Text.Encoding
import Mathlib.Data.List.DropRight

/-!
# What a drawing keeps

In a drawing one character stands for one character, and one unit for one unit: a blank always has a
single unit, and so has every mark. So whatever is counted in a text can be counted in its drawing,
and a line of a dump ends with as many units as its token spans. No mark is a blank, so a drawing is
not drawn any further.

* `isBlank_iff_mem_blanks` — the blanks one by one
* `unitWidth_mark`, `unitLen_visible`, `unitCount_visible` — a drawing is as long as its text
* `visible_eq_self_iff` — which texts are drawn as they are
* `Dump.drawingOf_line` — the drawing in a line is what stands behind its last blank
* `drawing_keeps` — what a drawing keeps of a text, and the line of a token of its width
-/

namespace MarkupTree

namespace Text

/-! ## Blanks -/

/-- Characters that leave a space: the tabs, the form feed, the space separators and the byte order
mark. -/
def spaces : List Char :=
  ['\t', '\x0b', '\x0c', ' ', '\u00a0', '\u1680', '\u2000', '\u2001', '\u2002', '\u2003', '\u2004',
   '\u2005', '\u2006', '\u2007', '\u2008', '\u2009', '\u200a', '\u202f', '\u205f', '\u3000',
   '\ufeff']

/-- Characters that end a line or a paragraph. -/
def lineEnds : List Char := ['\n', '\r', '\u2028', '\u2029']

/-- All blanks. -/
def blanks : List Char := spaces ++ lineEnds

theorem isBlank_iff {c : Char} :
    isBlank c = true ↔ ∃ r ∈ blankRanges, r.1 ≤ c.toNat ∧ c.toNat ≤ r.2 := by
  simp [isBlank]

theorem all_isBlank_blanks : blanks.all isBlank = true := by decide

theorem ofNat_mem_blanks : ∀ r ∈ blankRanges, ∀ k ≤ r.2 - r.1, Char.ofNat (r.1 + k) ∈ blanks := by
  decide

/-- The ranges hold the blanks and nothing else. -/
theorem isBlank_iff_mem_blanks {c : Char} : isBlank c = true ↔ c ∈ blanks := by
  constructor
  · intro h
    obtain ⟨r, hr, hlow, hhigh⟩ := isBlank_iff.mp h
    have hmem := ofNat_mem_blanks r hr (c.toNat - r.1) (by omega)
    rwa [Nat.add_sub_cancel' hlow, Char.ofNat_toNat] at hmem
  · exact List.all_eq_true.mp all_isBlank_blanks c

theorem isBlank_eq_false_iff {c : Char} : isBlank c = false ↔ c ∉ blanks := by
  rw [← isBlank_iff_mem_blanks, Bool.not_eq_true]

/-! ## Lengths -/

theorem unitWidth_of_isBlank {c : Char} (h : isBlank c = true) : unitWidth c = 1 := by
  have hnarrow : ∀ r ∈ blankRanges, r.2 < 0x10000 := by decide
  obtain ⟨r, hr, -, hhigh⟩ := isBlank_iff.mp h
  exact if_pos (Nat.lt_of_le_of_lt hhigh (hnarrow r hr))

theorem DrawnAs.unitWidth_eq {c g : Char} (h : DrawnAs c g) : unitWidth g = unitWidth c := by
  cases h with
  | lineBreak => rfl
  | tab => rfl
  | blank hblank => exact (unitWidth_of_isBlank hblank).symm
  | other => rfl

/-- A character is drawn in its own width. -/
theorem unitWidth_mark (c : Char) : unitWidth (mark c) = unitWidth c :=
  (drawnAs_iff.mpr rfl).unitWidth_eq

@[simp] theorem visible_nil : visible [] = [] := rfl

@[simp] theorem visible_cons (c : Char) (s : List Char) :
    visible (c :: s) = mark c :: visible s := rfl

@[simp] theorem length_visible (s : List Char) : (visible s).length = s.length := List.length_map _

@[simp] theorem unitLen_visible (s : List Char) : unitLen (visible s) = unitLen s := by
  induction s with
  | nil => rfl
  | cons c s ih => rw [visible_cons, unitLen_cons, unitLen_cons, unitWidth_mark, ih]

@[simp] theorem unitCount_visible (s : List Char) : unitCount (visible s) = unitCount s := by
  induction s with
  | nil => rfl
  | cons c s ih => rw [visible_cons, unitCount, unitCount, unitWidth_mark, ih]

/-! ## Texts drawn as they are -/

/-- A text is drawn as it is exactly when it holds no blank. -/
theorem visible_eq_self_iff {s : List Char} : visible s = s ↔ ∀ c ∈ s, c ∉ blanks := by
  constructor
  · intro h c hc
    rw [← isBlank_eq_false_iff]
    exact isBlank_of_mem_visible (h.symm ▸ hc)
  · intro h
    exact visible_eq_self fun c hc => isBlank_eq_false_iff.mpr (h c hc)

/-- What a drawing keeps of its text. -/
structure DrawingKeeps (s : List Char) : Prop where
  /-- A drawing is its own drawing. -/
  once : visible (visible s) = visible s
  /-- It holds no blank. -/
  unblank : ∀ c ∈ visible s, c ∉ blanks
  /-- A text that holds none is not changed, and every other is. -/
  same : visible s = s ↔ ∀ c ∈ s, c ∉ blanks
  /-- It has as many characters, and as many units. -/
  chars : (visible s).length = s.length
  length : unitLen (visible s) = unitLen s
  units : (encode (visible s)).length = (encode s).length
  /-- So any number of characters in front is drawn as the same number in front of the drawing. -/
  leads : ∀ n, visible (s.take n) = (visible s).take n

theorem drawingKeeps (s : List Char) : DrawingKeeps s where
  once := visible_visible s
  unblank := fun _ hc => isBlank_eq_false_iff.mp (isBlank_of_mem_visible hc)
  same := visible_eq_self_iff
  chars := length_visible s
  length := unitLen_visible s
  units := by rw [length_encode, length_encode, unitCount_visible]
  leads := fun _ => List.map_take

end Text

open Text

namespace Dump

/-! ## The drawing in a line -/

/-- What stands behind the last blank of a line. -/
def drawingOf (l : List Char) : List Char := l.rtakeWhile (!isBlank ·)

/-- Behind the last blank of a line stands the drawing, whatever the label is. -/
theorem drawingOf_line (p l s : List Char) : drawingOf (line p l (visible s)) = visible s := by
  have hdrawn : ∀ c ∈ (visible s).reverse, (!isBlank c) = true := by
    intro c hc
    rw [isBlank_of_mem_visible (List.mem_reverse.mp hc)]
    rfl
  have hspace : isBlank ' ' = true := by decide
  rw [drawingOf, List.rtakeWhile, line, List.reverse_append, List.takeWhile_append_of_pos hdrawn]
  simp [hspace]

/-- What the line of a token, with a label in front of its text, tells of its width. -/
structure LineKeeps (label : List Char) (t : Token) : Prop where
  /-- The drawing of the text stands behind the label. -/
  line : tokenLine label t = place t ++ label ++ [':', ' '] ++ drawingOf (tokenLine label t)
  text : drawingOf (tokenLine label t) = visible t.raw
  /-- It is as long as the token, which does not run backwards. -/
  length : t.length = .ok (unitLen (drawingOf (tokenLine label t)))
  /-- Where the length of the text fits into a word, this is the number of its units. -/
  units : unitCount t.raw < UInt32.size →
    t.startOffset.toNat + (encode (drawingOf (tokenLine label t))).length = t.endOffset.toNat

theorem lineKeeps {t : Token} (h : t.wellFormed = true) (label : List Char) :
    LineKeeps label t := by
  have htext : drawingOf (tokenLine label t) = visible t.raw := drawingOf_line _ _ _
  have hspan := Token.wellFormed_iff.mp h
  constructor
  case line =>
    rw [htext]
    rfl
  case text => exact htext
  case length => rw [htext, unitLen_visible, Token.length_eq_ok_iff, hspan]
  case units =>
    intro hfits
    rw [htext, length_encode, unitCount_visible, ← toNat_unitLen hfits, hspan]

end Dump

/-- In a drawing everything stands where it stands in the text, and nothing is left to be drawn. So the
line of a well-formed token ends with a drawing that is as wide as the token. -/
theorem drawing_keeps (s : List Char) :
    DrawingKeeps s ∧
      ∀ (label : List Char) (t : Token), t.wellFormed = true → Dump.LineKeeps label t :=
  ⟨drawingKeeps s, fun label _ h => Dump.lineKeeps h label⟩

/-- A token of six units with three kinds of blanks and a mark, under a label that is itself like the
end of a line. -/
theorem drawing_keeps_blanks :
    let raw := ['\t', '😀', '\ufeff', '\n', '␣']
    let label := ['a', ':', ' ', 'b']
    let t : Token := ⟨⟨1⟩, raw, 4, 10, 1, 2, 5, 2⟩
    DrawingKeeps raw ∧ visible raw = ['→', '😀', '␣', '⏎', '␣'] ∧ t.wellFormed = true ∧
      Dump.tokenLine label t = "[1:5]>[2:2](4,10)a: b: →😀␣⏎␣".toList ∧
      Dump.LineKeeps label t := by
  intro raw label t
  have hformed : t.wellFormed = true := by decide
  obtain ⟨hkeeps, hlines⟩ := drawing_keeps raw
  exact ⟨hkeeps, by decide, hformed, by decide, hlines label t hformed⟩

end MarkupTree
