/-!
# Pieces of tagged text

Tagged text is a row of start tags, end tags, mustaches and text. A tag `<name>` or `</name>` goes
to the first `>`, a mustache to the first pair of closing braces, and text to the next `<` or pair
of opening braces.

* `cutAt?_eq_some` — a cut splits a text around the mark
* `next_eq_ok` — what is read first and the rest make up the text
* `length_lt_of_next` — from a text that is not empty something is read
-/

namespace MarkupTree.Tags

/-! ## Cutting at a mark -/

/-- The text in front of the first `mark` and the text behind it. -/
def cutAt? (mark : List Char) : List Char → Option (List Char × List Char)
  | [] => none
  | c :: cs =>
    if mark.isPrefixOf (c :: cs) then some ([], (c :: cs).drop mark.length)
    else (cutAt? mark cs).map fun p => (c :: p.1, p.2)

theorem cutAt?_eq_some {mark : List Char} : ∀ {s a b : List Char},
    cutAt? mark s = some (a, b) → s = a ++ mark ++ b
  | [], _, _, h => by simp [cutAt?] at h
  | c :: cs, a, b, h => by
    rw [cutAt?] at h
    split at h
    · next hp =>
      simp only [Option.some.injEq, Prod.mk.injEq] at h
      obtain ⟨t, ht⟩ := List.isPrefixOf_iff_prefix.mp hp
      rw [← h.1, ← h.2, ← ht, List.drop_left, List.nil_append]
    · obtain ⟨⟨a', b'⟩, hcut, he⟩ := Option.map_eq_some_iff.mp h
      simp only [Prod.mk.injEq] at he
      rw [← he.1, ← he.2, cutAt?_eq_some hcut]
      rfl

/-! ## Text -/

/-- Whether a tag or a mustache begins here. -/
def opensMarkup : List Char → Bool
  | '<' :: _ => true
  | '{' :: '{' :: _ => true
  | _ => false

/-- The text in front of the next tag or mustache, and the rest. -/
def spanText : List Char → List Char × List Char
  | [] => ([], [])
  | c :: cs => if opensMarkup (c :: cs) then ([], c :: cs) else
    (c :: (spanText cs).1, (spanText cs).2)

theorem spanText_append : ∀ s : List Char, (spanText s).1 ++ (spanText s).2 = s
  | [] => rfl
  | c :: cs => by
    rw [spanText]
    split
    · rfl
    · simp only [List.cons_append, spanText_append cs]

/-! ## Pieces -/

/-- A piece of tagged text. -/
inductive Piece where
  | startTag (name : List Char)
  | endTag (name : List Char)
  | mustache (body : List Char)
  | text (chars : List Char)
deriving DecidableEq, Repr

/-- The source text of a piece. -/
def Piece.source : Piece → List Char
  | startTag name => '<' :: (name ++ ['>'])
  | endTag name => '<' :: '/' :: (name ++ ['>'])
  | mustache body => '{' :: '{' :: (body ++ ['}', '}'])
  | text chars => chars

/-- A piece that begins and does not end. -/
inductive Unterminated where
  | tag
  | mustache
deriving DecidableEq, Repr

/-- The tag with a given text between its angle brackets. -/
def Piece.tag : List Char → Piece
  | '/' :: name => endTag name
  | name => startTag name

/-- The first piece of a text that is not empty, and the rest. -/
def next : List Char → Except Unterminated (Piece × List Char)
  | '{' :: '{' :: s =>
    match cutAt? ['}', '}'] s with
    | some (body, rest) => .ok (.mustache body, rest)
    | none => .error .mustache
  | '<' :: s =>
    match cutAt? ['>'] s with
    | some (inner, rest) => .ok (.tag inner, rest)
    | none => .error .tag
  | s => .ok (.text (spanText s).1, (spanText s).2)

theorem source_tag (inner : List Char) : (Piece.tag inner).source = '<' :: (inner ++ ['>']) := by
  unfold Piece.tag
  split <;> rfl

theorem next_eq_ok {s rest : List Char} {p : Piece} (h : next s = .ok (p, rest)) :
    s = p.source ++ rest := by
  unfold next at h
  split at h
  · split at h
    · next hcut =>
      simp only [Except.ok.injEq, Prod.mk.injEq] at h
      rw [← h.1, ← h.2, cutAt?_eq_some hcut]
      simp [Piece.source]
    · cases h
  · split at h
    · next hcut =>
      simp only [Except.ok.injEq, Prod.mk.injEq] at h
      rw [← h.1, ← h.2, cutAt?_eq_some hcut, source_tag]
      simp
    · cases h
  · simp only [Except.ok.injEq, Prod.mk.injEq] at h
    rw [← h.1, ← h.2]
    exact (spanText_append s).symm

theorem source_ne_nil_of_next {s rest : List Char} {p : Piece} (hs : s ≠ [])
    (h : next s = .ok (p, rest)) : p.source ≠ [] := by
  unfold next at h
  split at h
  · split at h
    · simp only [Except.ok.injEq, Prod.mk.injEq] at h
      rw [← h.1]
      exact List.cons_ne_nil _ _
    · cases h
  · split at h
    · simp only [Except.ok.injEq, Prod.mk.injEq] at h
      rw [← h.1, source_tag]
      exact List.cons_ne_nil _ _
    · cases h
  · next hmustache htag =>
    simp only [Except.ok.injEq, Prod.mk.injEq] at h
    rw [← h.1]
    obtain ⟨c, cs, rfl⟩ := List.exists_cons_of_ne_nil hs
    have hno : opensMarkup (c :: cs) = false := by
      unfold opensMarkup
      split
      · next he => exact absurd he (htag _)
      · next he => exact absurd he (hmustache _)
      · rfl
    rw [Piece.source, spanText, hno]
    exact List.cons_ne_nil _ _

theorem length_lt_of_next {s rest : List Char} {p : Piece} (hs : s ≠ [])
    (h : next s = .ok (p, rest)) : rest.length < s.length := by
  have hpos := List.length_pos_iff.mpr (source_ne_nil_of_next hs h)
  rw [next_eq_ok h, List.length_append]
  omega

end MarkupTree.Tags
