import MarkupTree.Text.Visible
import Mathlib.Data.List.Forall2

/-!
# Texts that are drawn alike

A mark stands for a line break, for a tab or for any other blank, and also for itself when a text
holds it. So a drawing tells each character of its text but for this, and it holds no blank.

* `isBlank_of_mem_visible` — there is no blank in a drawing
* `drawnAs_iff` — what each character is drawn as
* `drawnAlike_iff` — two texts have one drawing exactly when their characters have, one by one
-/

namespace MarkupTree.Text

/-- No drawing holds a blank. -/
theorem isBlank_of_mem_visible {s : List Char} {c : Char} (h : c ∈ visible s) :
    isBlank c = false := by
  obtain ⟨d, -, rfl⟩ := List.mem_map.mp h
  exact isBlank_mark d

/-- What a character is drawn as. -/
inductive DrawnAs : Char → Char → Prop
  | lineBreak : DrawnAs '\n' '⏎'
  | tab : DrawnAs '\t' '→'
  | blank {c : Char} (hblank : isBlank c = true) (hbreak : c ≠ '\n') (htab : c ≠ '\t') :
      DrawnAs c '␣'
  | other {c : Char} (hblank : isBlank c = false) : DrawnAs c c

theorem drawnAs_iff {c g : Char} : DrawnAs c g ↔ mark c = g := by
  constructor
  · intro h
    cases h with
    | lineBreak => rfl
    | tab => rfl
    | blank hblank hbreak htab => rw [mark, if_neg hbreak, if_neg htab, if_pos hblank]
    | other hblank => exact mark_of_not_isBlank hblank
  · rintro rfl
    unfold mark
    split
    · next hbreak => exact hbreak ▸ .lineBreak
    · next hbreak =>
      split
      · next htab => exact htab ▸ .tab
      · next htab =>
        split
        · next hblank => exact .blank hblank hbreak htab
        · next hblank => exact .other (Bool.eq_false_iff.mpr hblank)

/-- Two texts that have one drawing. -/
structure DrawnAlike (s t : List Char) : Prop where
  visible : visible s = visible t
  /-- So they differ in nothing but which of the characters they have that are drawn alike. -/
  chars : List.Forall₂ (fun c d => ∃ g, DrawnAs c g ∧ DrawnAs d g) s t

theorem drawnAlike_iff {s t : List Char} : DrawnAlike s t ↔ visible s = visible t := by
  refine ⟨DrawnAlike.visible, fun h => ⟨h, ?_⟩⟩
  have hmarks : List.Forall₂ (fun c d => mark c = mark d) s t := by
    rw [← List.forall₂_map_right_iff, ← List.forall₂_map_left_iff, List.forall₂_eq_eq_eq]
    exact h
  exact hmarks.imp fun c d hcd => ⟨mark d, drawnAs_iff.mpr hcd, drawnAs_iff.mpr rfl⟩

/-- A blank of one kind or another and the mark, in front of a break. -/
example : DrawnAlike [' ', '\n'] ['\u00a0', '\n'] ∧ DrawnAlike ['␣', '⏎'] ['\r', '\n'] := by
  rw [drawnAlike_iff, drawnAlike_iff]
  decide

end MarkupTree.Text
