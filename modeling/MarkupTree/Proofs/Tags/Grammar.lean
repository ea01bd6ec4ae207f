import MarkupTree.Proofs.Tags.Verdict

/-!
# Reading and writing tagged text

A canonical forest that is written in ASCII can be read back, and whatever is read is such a forest.
So the parser accepts one grammar, and a text has no more than one forest.

* `describesAll_nodes` — the nodes made for a forest have its shape
* `parse_inverts_render` — reading is the inverse of writing
* `parse_mustache_not_ascii` — outside ASCII not even a mustache is read
-/

namespace MarkupTree

/-! ## The shape of a tree -/

/-- A node has a kind, a name and a text, stands in the source and has no attributes. -/
structure Node.Shows (n : Node) (k : NodeKind) (name raw : List Char) : Prop where
  kind_eq : n.kind = k
  name_eq : n.name = name
  raw_eq : n.raw = raw
  visible : n.isGhost = false
  bare : n.attributes = []

/-- A node has neither children nor a pear. -/
def Node.IsLeaf (n : Node) : Prop := n.children = [] ∧ n.pear = none

namespace Tags

namespace Item

mutual

/-- A node has the shape of an item: an element is a start tag that holds its contents, with an end
tag of the same name for a pear. -/
def Describes : Item → Node → Prop
  | element name items, n =>
    n.Shows .startTag name (Piece.startTag name).source ∧ DescribesAll items n.children ∧
      ∃ pear, n.pear = some pear ∧ pear.Shows .endTag name (Piece.endTag name).source ∧
        pear.IsLeaf
  | mustache body, n => n.Shows .block [] (Piece.mustache body).source ∧ n.IsLeaf
  | text chars, n => n.Shows .text NodeKind.text.tag chars ∧ n.IsLeaf

/-- Nodes have the shapes of the items of a forest, one by one. -/
def DescribesAll : List Item → List Node → Prop
  | [], ns => ns = []
  | i :: is, ns => ∃ n rest, ns = n :: rest ∧ i.Describes n ∧ DescribesAll is rest

end

section

variable (rules : PositionRules) (source : List Char)

mutual

theorem describes_node : ∀ (i : Item) (c : Cursor), i.Describes (i.node rules source c)
  | element name items, c => by
    rw [Item.node, Describes]
    exact ⟨⟨rfl, rfl, rfl, rfl, rfl⟩, describesAll_nodes items _, _, rfl,
      ⟨rfl, rfl, rfl, rfl, rfl⟩, rfl, rfl⟩
  | mustache _, _ => ⟨⟨rfl, rfl, rfl, rfl, rfl⟩, rfl, rfl⟩
  | text _, _ => ⟨⟨rfl, rfl, rfl, rfl, rfl⟩, rfl, rfl⟩

/-- The nodes made for a forest have its shape, wherever it begins. -/
theorem describesAll_nodes : ∀ (items : List Item) (c : Cursor),
    DescribesAll items (nodes rules source c items)
  | [], _ => rfl
  | i :: is, c => ⟨_, _, rfl, describes_node i c, describesAll_nodes is _⟩

end

end

/-- Canonical forests with the same writing are the same. -/
theorem render_injOn {is js : List Item} (hi : CanonicalAll is) (hj : CanonicalAll js)
    (h : render is = render js) : is = js := by
  have hpieces := pieces_render hi
  rw [h, pieces_render hj, Prod.mk.injEq] at hpieces
  exact Item.piecesAll_injective hpieces.1.symm

end Item

/-! ## Reading is the inverse of writing -/

/-- A canonical forest written in ASCII is read back with its shape. What is read is such a forest,
and the source is its writing. No two canonical forests have the same writing. -/
theorem parse_inverts_render (d : Dialect) (counter : Counter) :
    (∀ items, Item.CanonicalAll items → Dialect.isAscii (Item.render items) = true →
        Text.unitCount (Item.render items) < UInt32.size - 1 →
          ∃ doc, (d.parse (Item.render items) counter).1 = .ok doc ∧
            Item.DescribesAll items doc.nodes) ∧
      (∀ source doc, Text.unitCount source < UInt32.size - 1 →
        (d.parse source counter).1 = .ok doc →
          ∃ items, Item.DescribesAll items doc.nodes ∧ Item.CanonicalAll items ∧
            Dialect.isAscii (Item.render items) = true ∧ Item.render items = source) ∧
      ∀ is js, Item.CanonicalAll is → Item.CanonicalAll js →
        Item.render is = Item.render js → is = js := by
  refine ⟨?_, ?_, fun _ _ => Item.render_injOn⟩
  · intro items hcanon hascii hlen
    refine ⟨{ nodes := Item.nodes d.rules (Item.render items) ⟨0, counter.next⟩ items
              isFragment := true }, ?_, Item.describesAll_nodes _ _ items _⟩
    exact (Dialect.parse_eq_ok_iff (by omega)).mpr ⟨hascii, items, hcanon, rfl, rfl⟩
  · intro source doc hlen h
    obtain ⟨hascii, items, hcanon, rfl, rfl⟩ := (Dialect.parse_eq_ok_iff (by omega)).mp h
    exact ⟨items, Item.describesAll_nodes _ _ items _, hcanon, hascii, rfl⟩

/-- Braces are read back from a name, from texts and from a mustache. -/
theorem parse_inverts_render_braces :
    let items : List Item :=
      [.element ['{', '{'] [.mustache ['{'], .text ['x', '{']], .text ['}', '}']]
    Item.CanonicalAll items ∧
      Item.render items = ['<', '{', '{', '>', '{', '{', '{', '}', '}', 'x', '{',
        '<', '/', '{', '{', '>', '}', '}'] ∧
        ∃ doc, (Dialect.markup.parse (Item.render items) {}).1 = .ok doc ∧
          Item.DescribesAll items doc.nodes := by
  intro items
  have hcanon : Item.CanonicalAll items := by decide
  exact ⟨hcanon, rfl, (parse_inverts_render .markup {}).1 items hcanon (by decide) (by decide)⟩

/-- A canonical mustache that is not in ASCII is refused. -/
theorem parse_mustache_not_ascii :
    Item.CanonicalAll [.mustache ['é']] ∧
      Text.unitCount (Item.render [.mustache ['é']]) < UInt32.size - 1 ∧
        (Dialect.markup.parse (Item.render [.mustache ['é']]) {}).1
          = .error (.error (.unsupported "non-ASCII source")) := by
  refine ⟨by decide, by decide, ?_⟩
  rw [Dialect.parse_of_not_isAscii (by decide)]

end Tags

end MarkupTree
