import MarkupTree.Proofs.Tags.Draft

/-!
# The nodes of a forest at a place

An item and the place where it begins, an offset and an identity, determine its nodes: the tokens
follow each other in the order of the pieces, an element gets the token of its end tag behind those
of its contents. Placed in this way, a draft goes through the same steps as the builder of nodes.

* `past_eq` — the place behind a row of pieces
* `builder_accept` — a step of the builder is a step of the draft
-/

namespace MarkupTree.Tags

/-! ## Places -/

/-- Where a piece begins: behind how many characters, and which identity its token gets. -/
structure Cursor where
  pos : Nat
  id : UInt64

namespace Cursor

/-- The place behind a piece. -/
def step (c : Cursor) (p : Piece) : Cursor := ⟨c.pos + p.source.length, c.id + 1⟩

/-- The place behind a row of pieces. -/
def past (c : Cursor) (ps : List Piece) : Cursor := ps.foldl step c

/-- The token of a piece at a place of a source. -/
def token (rules : PositionRules) (source : List Char) (c : Cursor) (p : Piece) : Token :=
  Token.ofText rules source p.source (UInt32.ofNat c.pos) ⟨c.id⟩

@[simp] theorem past_nil (c : Cursor) : c.past [] = c := rfl

@[simp] theorem past_cons (c : Cursor) (p : Piece) (ps : List Piece) :
    c.past (p :: ps) = (c.step p).past ps := rfl

@[simp] theorem past_append (c : Cursor) (ps qs : List Piece) :
    c.past (ps ++ qs) = (c.past ps).past qs := List.foldl_append

theorem past_eq : ∀ (ps : List Piece) (c : Cursor),
    c.past ps = ⟨c.pos + (sources ps).length, c.id + UInt64.ofNat ps.length⟩
  | [], c => by
    show c = ⟨c.pos + 0, c.id + 0⟩
    rw [UInt64.add_zero]
    rfl
  | p :: ps, c => by
    rw [past_cons, past_eq ps, step, sources_cons, List.length_append, List.length_cons,
      UInt64.ofNat_add, Nat.add_assoc, UInt64.add_assoc, UInt64.add_comm 1]
    rfl

end Cursor

/-! ## Nodes of items -/

section

variable (rules : PositionRules) (source : List Char)

namespace Item

mutual

/-- The node of an item that begins at a place of a source. -/
def node (c : Cursor) : Item → Node
  | element name items =>
    let inside := c.step (.startTag name)
    let stop := inside.past (piecesAll items)
    { Node.parent .startTag (c.token rules source (.startTag name)) name (nodes inside items) with
      pear := some (Node.parent .endTag (stop.token rules source (.endTag name)) name []) }
  | mustache body => Node.parent .block (c.token rules source (.mustache body)) [] []
  | text chars => Node.leaf .text (c.token rules source (.text chars))

/-- The nodes of a forest that begins at a place of a source. -/
def nodes (c : Cursor) : List Item → List Node
  | [] => []
  | i :: is => i.node c :: nodes (c.past i.pieces) is

end

theorem nodes_append : ∀ (c : Cursor) (is js : List Item),
    nodes rules source c (is ++ js)
      = nodes rules source c is ++ nodes rules source (c.past (piecesAll is)) js
  | _, [], _ => rfl
  | c, i :: is, js => by
    rw [List.cons_append, nodes, nodes, nodes_append _ is js, piecesAll, Cursor.past_append]
    rfl

theorem nodes_reverse_cons (c : Cursor) (i : Item) (is : List Item) :
    (nodes rules source c (i :: is).reverse).reverse
      = i.node rules source (c.past (piecesAll is.reverse))
        :: (nodes rules source c is.reverse).reverse := by
  rw [List.reverse_cons, nodes_append, nodes, nodes, List.reverse_concat]

end Item

/-! ## Drafts and builders -/

namespace Draft

/-- The open elements of a draft, the outermost of which begins at a place of a source. -/
def openedAt (c : Cursor) : List OpenItem → List Open
  | [] => []
  | o :: os =>
    let start := c.past (openedPieces os)
    let inside := start.step (.startTag o.name)
    { token := start.token rules source (.startTag o.name)
      name := o.name
      children := (Item.nodes rules source inside o.items.reverse).reverse }
      :: openedAt c os

/-- The builder that a draft is when its text begins at a place of a source. -/
def builder (c : Cursor) (d : Draft) : Builder :=
  { opened := openedAt rules source (c.past (Item.piecesAll d.roots.reverse)) d.opened
    roots := (Item.nodes rules source c d.roots.reverse).reverse }

theorem builder_add (c : Cursor) (d : Draft) (i : Item) :
    (d.add i).builder rules source c
      = (d.builder rules source c).add (i.node rules source (c.past d.pieces)) := by
  obtain ⟨opened, roots⟩ := d
  cases opened with
  | nil =>
    rw [add, builder, builder, Builder.add, pieces, openedPieces, List.append_nil]
    dsimp only
    rw [Item.nodes_reverse_cons]
    rfl
  | cons o os =>
    rw [add, builder, builder, Builder.add, pieces, openedPieces]
    dsimp only
    rw [openedAt, openedAt]
    dsimp only
    rw [Item.nodes_reverse_cons, Cursor.past_append, Cursor.past_append, Cursor.past_cons]

/-- A step of the builder of nodes is a step of the draft: it takes in the same pieces, finds the
same mistakes, and adds the same nodes. -/
theorem builder_accept (c : Cursor) (d : Draft) (p : Piece) :
    (d.builder rules source c).accept ((c.past d.pieces).token rules source p) p
      = (d.accept p).map (builder rules source c) := by
  cases p with
  | startTag name =>
    rw [accept, Builder.accept, Except.map, pieces, Cursor.past_append]
    rfl
  | endTag name =>
    obtain ⟨opened, roots⟩ := d
    rw [accept, Builder.accept, close, Builder.close, builder]
    cases opened with
    | nil => rfl
    | cons o os =>
      dsimp only
      rw [openedAt]
      dsimp only
      by_cases hname : o.name = name
      · -- the element goes where its start tag stands, which is behind all that is open around it
        subst hname
        rw [if_pos rfl, if_pos rfl, Except.map, builder_add, Builder.element, Item.node]
        simp only [List.reverse_reverse, pieces, openedPieces, Cursor.past_append,
          Cursor.past_cons]
        rfl
      · rw [if_neg hname, if_neg hname]
        rfl
  | mustache body =>
    rw [accept, Builder.accept, Except.map, builder_add]
    rfl
  | text chars =>
    rw [accept, Builder.accept, Except.map, builder_add]
    rfl

end Draft

end

end MarkupTree.Tags
