import MarkupTree.Proofs.Tags.Item
import MarkupTree.Tags.Parser

/-!
# Building a forest from pieces

A draft is a tree in the making without tokens: the open elements and what they hold so far. It
takes in pieces as the builder of nodes does, and it loses none of them: at any time the pieces of
the draft are the pieces taken in.

* `read_pieces` — what has been read is what the draft holds
* `read_piecesAll` — the pieces of a forest add that forest to the innermost open element
* `read_eq_closed_iff` — which rows of pieces close all their elements
-/

namespace MarkupTree.Tags

/-- An open element of a draft: its name, and its items so far, latest first. -/
structure OpenItem where
  name : List Char
  items : List Item := []

/-- A forest in the making: the open elements from the innermost, and the finished items of the
first level, latest first. -/
structure Draft where
  opened : List OpenItem := []
  roots : List Item := []

namespace Draft

/-! ## Taking in pieces -/

/-- Adds an item to the innermost open element. -/
def add (d : Draft) (i : Item) : Draft :=
  match d.opened with
  | [] => { d with roots := i :: d.roots }
  | o :: os => { d with opened := { o with items := i :: o.items } :: os }

/-- Closes the innermost open element, which must be called `name`. -/
def close (d : Draft) (name : List Char) : Except Mistake Draft :=
  match d.opened with
  | [] => .error (.stray name)
  | o :: os =>
    if o.name = name then
      .ok ({ d with opened := os }.add (.element o.name o.items.reverse))
    else .error (.expected o.name)

/-- Takes in a piece. -/
def accept (d : Draft) : Piece → Except Mistake Draft
  | .startTag name => .ok { d with opened := { name } :: d.opened }
  | .endTag name => d.close name
  | .mustache body => .ok (d.add (.mustache body))
  | .text chars => .ok (d.add (.text chars))

/-- Takes in a row of pieces. A mistake comes with the draft that it was found in. -/
def read : Draft → List Piece → Except (Mistake × Draft) Draft
  | d, [] => .ok d
  | d, p :: ps =>
    match d.accept p with
    | .ok d' => d'.read ps
    | .error mistake => .error (mistake, d)

theorem read_append : ∀ (ps qs : List Piece) (d : Draft),
    d.read (ps ++ qs) = (d.read ps).bind (·.read qs)
  | [], _, _ => rfl
  | p :: ps, qs, d => by
    rw [List.cons_append, read, read]
    cases d.accept p with
    | error _ => rfl
    | ok d' => exact read_append ps qs d'

/-! ## No piece is lost -/

/-- The pieces of open elements in the order of the text, given from the innermost. -/
def openedPieces : List OpenItem → List Piece
  | [] => []
  | o :: os => openedPieces os ++ .startTag o.name :: Item.piecesAll o.items.reverse

/-- The pieces of a draft in the order of the text. -/
def pieces (d : Draft) : List Piece := Item.piecesAll d.roots.reverse ++ openedPieces d.opened

theorem piecesAll_reverse_cons (i : Item) (is : List Item) :
    Item.piecesAll (i :: is).reverse = Item.piecesAll is.reverse ++ i.pieces := by
  rw [List.reverse_cons, Item.piecesAll_append, Item.piecesAll, Item.piecesAll, List.append_nil]

theorem pieces_add (d : Draft) (i : Item) : (d.add i).pieces = d.pieces ++ i.pieces := by
  unfold add pieces
  split
  · next h => rw [h, piecesAll_reverse_cons, openedPieces, List.append_nil, List.append_nil]
  · next o os h =>
    rw [h, openedPieces, openedPieces, piecesAll_reverse_cons]
    simp only [List.append_assoc, List.cons_append]

/-- A step takes in just the piece that it is given. -/
theorem accept_pieces {d d' : Draft} {p : Piece} (h : d.accept p = .ok d') :
    d'.pieces = d.pieces ++ [p] := by
  cases p with
  | startTag name =>
    rw [← Except.ok.inj h, pieces, pieces, openedPieces]
    simp [Item.piecesAll]
  | endTag name =>
    rw [accept, close] at h
    split at h
    · cases h
    · next o os ho =>
      split at h
      · next hname =>
        rw [← Except.ok.inj h, pieces_add, pieces, pieces, ho, openedPieces, Item.pieces, hname]
        simp only [List.append_assoc, List.cons_append]
      · cases h
  | mustache body => rw [← Except.ok.inj h, pieces_add, Item.pieces]
  | text chars => rw [← Except.ok.inj h, pieces_add, Item.pieces]

theorem read_pieces : ∀ {ps : List Piece} {d d' : Draft}, d.read ps = .ok d' →
    d'.pieces = d.pieces ++ ps
  | [], d, d', h => by rw [← Except.ok.inj h, List.append_nil]
  | p :: ps, d, d', h => by
    rw [read] at h
    split at h
    · next d₁ hstep =>
      rw [read_pieces h, accept_pieces hstep, List.append_assoc, List.singleton_append]
    · cases h

/-! ## Forests -/

/-- Adds the items of a forest to the innermost open element. -/
def addAll (d : Draft) (items : List Item) : Draft := items.foldl add d

theorem addAll_opened (o : OpenItem) (os : List OpenItem) (roots : List Item) :
    ∀ items : List Item, addAll ⟨o :: os, roots⟩ items
      = ⟨{ o with items := items.reverse ++ o.items } :: os, roots⟩ := by
  intro items
  induction items generalizing o with
  | nil => rfl
  | cons i is ih =>
    rw [addAll, List.foldl_cons, ← addAll, add, ih]
    simp

theorem addAll_closed (roots : List Item) :
    ∀ items : List Item, addAll ⟨[], roots⟩ items = ⟨[], items.reverse ++ roots⟩ := by
  intro items
  induction items generalizing roots with
  | nil => rfl
  | cons i is ih =>
    rw [addAll, List.foldl_cons, ← addAll, add, ih]
    simp

mutual

theorem read_item : ∀ (i : Item) (d : Draft), d.read i.pieces = .ok (d.add i)
  | .element name items, d => by
    rw [Item.pieces, read, accept]
    dsimp only
    -- the contents leave open what was open, so the end tag closes this very element
    rw [read_append, read_piecesAll items, addAll_opened, List.append_nil]
    show read _ [Piece.endTag name] = _
    rw [read, accept, close]
    dsimp only
    rw [if_pos rfl, List.reverse_reverse]
    rfl
  | .mustache _, _ => rfl
  | .text _, _ => rfl

/-- The pieces of a forest add that forest to the innermost open element. -/
theorem read_piecesAll : ∀ (items : List Item) (d : Draft),
    d.read (Item.piecesAll items) = .ok (d.addAll items)
  | [], _ => rfl
  | i :: is, d => by
    rw [Item.piecesAll, read_append, read_item i d]
    exact read_piecesAll is (d.add i)

end

/-- A row of pieces leaves no element open exactly when it is the row of a forest, and the draft is
then that forest. -/
theorem read_eq_closed_iff {ps : List Piece} {roots : List Item} :
    read {} ps = .ok ⟨[], roots⟩ ↔ ps = Item.piecesAll roots.reverse := by
  constructor
  · intro h
    have hpieces := read_pieces h
    simpa [pieces, openedPieces, Item.piecesAll] using hpieces.symm
  · rintro rfl
    rw [read_piecesAll, addAll_closed, List.reverse_reverse, List.append_nil]

end Draft

/-- A forest is known by its pieces. -/
theorem Item.piecesAll_injective : Function.Injective Item.piecesAll := by
  intro is js h
  have hread : Draft.read {} (piecesAll js) = .ok ⟨[], is.reverse⟩ :=
    Draft.read_eq_closed_iff.mpr (by rw [List.reverse_reverse, h])
  rw [Draft.read_piecesAll, Draft.addAll_closed, List.append_nil] at hread
  simpa using hread.symm

end MarkupTree.Tags
