import MarkupTree.Proofs.Tags.Piece
import MarkupTree.Proofs.Text.Cut

/-!
# The grammar of tagged text

Tagged text in which every element is closed is a forest of items: elements, mustaches and text.
A forest is written by putting its pieces behind each other. It is canonical when that writing can
be read back: no name, no mustache and no text ends early, and text stands beside nothing that it
would run together with.

* `canonicalAll_iff` — canonical means that the pieces are delimited
* `pieces_render`, `canonicalAll_of_pieces_eq` — which forests have the pieces of a text
-/

namespace MarkupTree.Tags

/-- What a piece has in ASCII at least: its name or its text, but not what a mustache holds. -/
def Piece.Ascii : Piece → Prop
  | startTag name | endTag name => Dialect.isAscii name = true
  | mustache _ => True
  | text chars => Dialect.isAscii chars = true

theorem ascii_of_isAscii_sources : ∀ {ps : List Piece}, Dialect.isAscii (sources ps) = true →
    ∀ p ∈ ps, p.Ascii
  | [], _ => fun _ hp => nomatch hp
  | p :: ps, h => by
    rw [sources_cons, isAscii_append, Bool.and_eq_true] at h
    rw [List.forall_mem_cons]
    refine ⟨?_, ascii_of_isAscii_sources h.2⟩
    have hsource := h.1
    cases p with
    | startTag name | endTag name =>
      simpa [Piece.Ascii, Piece.source, Dialect.isAscii] using hsource
    | mustache body => trivial
    | text chars => exact hsource

/-! ## Items -/

/-- A part of tagged text that stands for itself. -/
inductive Item where
  /-- An element with its start tag, its contents and its end tag. -/
  | element (name : List Char) (items : List Item)
  | mustache (body : List Char)
  | text (chars : List Char)

namespace Item

mutual

/-- The pieces of an item in the order of the text. -/
def pieces : Item → List Piece
  | element name items => .startTag name :: (piecesAll items ++ [.endTag name])
  | mustache body => [.mustache body]
  | text chars => [.text chars]

/-- The pieces of a forest in the order of the text. -/
def piecesAll : List Item → List Piece
  | [] => []
  | i :: is => i.pieces ++ piecesAll is

end

/-- The text of a forest. -/
def render (items : List Item) : List Char := sources (piecesAll items)

/-! ## Canonical forests -/

/-- One item may stand in front of another: text is never followed by text, and text that ends
with an opening brace is not followed by a mustache. -/
def Precedes : Item → Item → Prop
  | text _, text _ => False
  | text chars, mustache _ => chars.getLast? ≠ some '{'
  | text _, element .. => True
  | element .., _ | mustache _, _ => True

mutual

/-- An item that can be read back from its text, with names and text in ASCII. -/
def Canonical : Item → Prop
  | element name items =>
    Dialect.isAscii name = true ∧ '>' ∉ name ∧ name.head? ≠ some '/' ∧ CanonicalAll items
  | mustache body => ¬['}', '}'] <:+: body ++ ['}']
  | text chars =>
    chars ≠ [] ∧ Dialect.isAscii chars = true ∧ '<' ∉ chars ∧ ¬['{', '{'] <:+: chars

/-- A forest that can be read back from its text, with names and text in ASCII. -/
def CanonicalAll : List Item → Prop
  | [] => True
  | i :: is => i.Canonical ∧ (∀ j ∈ is.head?, i.Precedes j) ∧ CanonicalAll is

end

instance decidablePrecedes : DecidableRel Precedes
  | text _, text _ => isFalse id
  | text chars, mustache _ => inferInstanceAs (Decidable (chars.getLast? ≠ some '{'))
  | text _, element .. => isTrue trivial
  | element .., _ | mustache _, _ => isTrue trivial

mutual

/-- Whether an item is canonical can be found out. -/
def decideCanonical : (i : Item) → Decidable i.Canonical
  | element name items =>
    have := decideCanonicalAll items
    inferInstanceAs (Decidable (Dialect.isAscii name = true ∧ '>' ∉ name ∧
      name.head? ≠ some '/' ∧ CanonicalAll items))
  | mustache body => inferInstanceAs (Decidable (¬['}', '}'] <:+: body ++ ['}']))
  | text chars =>
    inferInstanceAs (Decidable (chars ≠ [] ∧ Dialect.isAscii chars = true ∧ '<' ∉ chars ∧
      ¬['{', '{'] <:+: chars))

/-- Whether a forest is canonical can be found out. -/
def decideCanonicalAll : (items : List Item) → Decidable (CanonicalAll items)
  | [] => isTrue trivial
  | i :: is =>
    have := decideCanonical i
    have := decideCanonicalAll is
    inferInstanceAs (Decidable (i.Canonical ∧ (∀ j ∈ is.head?, i.Precedes j) ∧ CanonicalAll is))

end

instance : DecidablePred Canonical := decideCanonical

instance : DecidablePred CanonicalAll := decideCanonicalAll

theorem piecesAll_append : ∀ is js : List Item,
    piecesAll (is ++ js) = piecesAll is ++ piecesAll js
  | [], _ => rfl
  | i :: is, js => by
    rw [List.cons_append, piecesAll, piecesAll, piecesAll_append is js, List.append_assoc]

/-- The piece that an item begins with. -/
def first : Item → Piece
  | element name _ => .startTag name
  | mustache body => .mustache body
  | text chars => .text chars

/-- The piece that an item ends with. -/
def last : Item → Piece
  | element name _ => .endTag name
  | mustache body => .mustache body
  | text chars => .text chars

theorem head?_pieces_append (i : Item) (ps : List Piece) :
    (i.pieces ++ ps).head? = some i.first := by
  cases i <;> simp [pieces, first]

theorem getLast?_pieces (i : Item) : i.pieces.getLast? = some i.last := by
  cases i with
  | element name items => rw [pieces, ← List.cons_append, List.getLast?_concat, last]
  | mustache body => rfl
  | text chars => rfl

theorem precedes_first_iff {i j : Item} : i.last.Precedes j.first ↔ i.Precedes j := by
  cases i <;> cases j <;> exact Iff.rfl

/-- The pieces of an item may stand in front of those of a forest exactly when the item may. -/
theorem precedes_pieces_iff (i : Item) (is : List Item) :
    (∀ p ∈ i.pieces.getLast?, ∀ q ∈ (piecesAll is).head?, p.Precedes q) ↔
      ∀ j ∈ is.head?, i.Precedes j := by
  cases is with
  | nil => simp [piecesAll]
  | cons j js =>
    rw [piecesAll, head?_pieces_append, getLast?_pieces]
    simp [precedes_first_iff]

theorem precedes_endTag (p : Piece) (name : List Char) : p.Precedes (.endTag name) := by
  cases p <;> trivial

mutual

theorem canonical_iff : ∀ {i : Item},
    i.Canonical ↔ (∀ p ∈ i.pieces, p.Sound ∧ p.Ascii) ∧ i.pieces.IsChain Piece.Precedes
  | element name items => by
    rw [Canonical, canonicalAll_iff, pieces, List.isChain_cons, List.isChain_append,
      List.forall_mem_cons, List.forall_mem_append, Piece.Sound, Piece.Ascii]
    -- tags stand in front of anything, and anything stands in front of an end tag
    have hstart : ∀ y ∈ (piecesAll items ++ [Piece.endTag name]).head?,
        (Piece.startTag name).Precedes y := fun _ _ => trivial
    have hstop : ∀ x ∈ (piecesAll items).getLast?, ∀ y ∈ [Piece.endTag name].head?,
        x.Precedes y := by
      rintro x - y hy
      rw [← Option.some.inj hy]
      exact precedes_endTag x name
    constructor
    · rintro ⟨hascii, hgt, hslash, hall, hchain⟩
      have hend : ∀ p ∈ [Piece.endTag name], p.Sound ∧ p.Ascii := by
        simpa [Piece.Sound, Piece.Ascii] using ⟨hgt, hascii⟩
      exact ⟨⟨⟨⟨hgt, hslash⟩, hascii⟩, hall, hend⟩, hstart, hchain, List.isChain_singleton _,
        hstop⟩
    · rintro ⟨⟨⟨⟨hgt, hslash⟩, hascii⟩, hall, -⟩, -, hchain, -⟩
      exact ⟨hascii, hgt, hslash, hall, hchain⟩
  | mustache body => by simp [Canonical, pieces, Piece.Sound, Piece.Ascii]
  | text chars => by
    rw [Canonical, pieces, List.forall_mem_singleton, Piece.Sound, Piece.Ascii, IsText,
      and_iff_left (List.isChain_singleton _)]
    tauto

/-- A forest is canonical exactly when its pieces are delimited, with names and text in ASCII. -/
theorem canonicalAll_iff : ∀ {items : List Item},
    CanonicalAll items ↔
      (∀ p ∈ piecesAll items, p.Sound ∧ p.Ascii) ∧ (piecesAll items).IsChain Piece.Precedes
  | [] => by simp [CanonicalAll, piecesAll]
  | i :: is => by
    rw [CanonicalAll, canonical_iff, canonicalAll_iff, piecesAll, List.isChain_append,
      List.forall_mem_append, precedes_pieces_iff]
    tauto

end

theorem sound_of_canonicalAll {items : List Item} (h : CanonicalAll items) :
    ∀ p ∈ piecesAll items, p.Sound := fun p hp => ((canonicalAll_iff.mp h).1 p hp).1

/-- The pieces of the writing of a canonical forest are the pieces of the forest. -/
theorem pieces_render {items : List Item} (h : CanonicalAll items) :
    Tags.pieces (render items) = (piecesAll items, []) := by
  have hchain := (canonicalAll_iff.mp h).2
  rw [pieces_eq_iff, List.append_nil]
  exact ⟨rfl, delimited_nil_iff.mpr ⟨sound_of_canonicalAll h, hchain⟩, fun h => absurd rfl h⟩

/-- A forest with the pieces of a text in ASCII is canonical, and the text is its writing. -/
theorem canonicalAll_of_pieces_eq {s : List Char} (hascii : Dialect.isAscii s = true)
    {items : List Item} (h : Tags.pieces s = (piecesAll items, [])) :
    CanonicalAll items ∧ render items = s := by
  obtain ⟨hsource, hdelim, -⟩ := pieces_eq_iff.mp h
  obtain ⟨hsound, hchain⟩ := delimited_nil_iff.mp hdelim
  rw [List.append_nil] at hsource
  rw [hsource] at hascii
  have hread := ascii_of_isAscii_sources hascii
  exact ⟨canonicalAll_iff.mpr ⟨fun p hp => ⟨hsound p hp, hread p hp⟩, hchain⟩, hsource.symm⟩

end Item

end MarkupTree.Tags
