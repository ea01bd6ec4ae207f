import MarkupTree.Proofs.Tags.Placement
import MarkupTree.Walk.Preorder

/-!
# The walk of a placed forest

The tokens of a forest stand in the tree where its elements are, an end tag in the pear of its start
tag. A walk meets them in the order of the pieces again.

* `token_flatten_nodes` — the tokens that a walk meets are those of the pieces in order
* `plain_of_mem_flatten_nodes` — no node of the forest is a ghost or has attributes
-/

namespace MarkupTree

/-- A node that stands in the source and has no attributes; its pear, if any, is an end tag. -/
structure Node.Plain (n : Node) : Prop where
  visible : n.isGhost = false
  bare : n.attributes = []
  closed : ∀ p, n.pear = some p → p.kind = .endTag

namespace Tags

section

variable (rules : PositionRules) (source : List Char)

/-- The tokens of a row of pieces that begins at a place of a source. -/
def Cursor.tokens (c : Cursor) : List Piece → List Token
  | [] => []
  | p :: ps => c.token rules source p :: (c.step p).tokens ps

theorem Cursor.tokens_append : ∀ (c : Cursor) (ps qs : List Piece),
    c.tokens rules source (ps ++ qs)
      = c.tokens rules source ps ++ (c.past ps).tokens rules source qs
  | _, [], _ => rfl
  | c, p :: ps, qs => by
    rw [List.cons_append, tokens, tokens, tokens_append _ ps qs]
    rfl

theorem preorder_element (name : List Char) (items : List Item) (c : Cursor) (depth : UInt64) :
    (Item.node rules source c (.element name items)).preorder {} depth
      = (Item.node rules source c (.element name items), depth) ::
        (Node.preorderAll {} (depth + 1)
            (Item.nodes rules source (c.step (.startTag name)) items)
          ++ [(Node.parent .endTag (((c.step (.startTag name)).past (Item.piecesAll items)).token
              rules source (.endTag name)) name [], depth)]) := by
  rw [Item.node, Node.parent, Node.preorder]
  rfl

mutual

theorem token_preorder_node : ∀ (i : Item) (c : Cursor) (depth : UInt64),
    ((i.node rules source c).preorder {} depth).map (·.1.token) = c.tokens rules source i.pieces
  | .element name items, c, depth => by
    rw [preorder_element, List.map_cons, List.map_append, token_preorderAll_nodes items,
      Item.pieces, Cursor.tokens, Cursor.tokens_append]
    rfl
  | .mustache _, _, _ => rfl
  | .text _, _, _ => rfl

theorem token_preorderAll_nodes : ∀ (items : List Item) (c : Cursor) (depth : UInt64),
    (Node.preorderAll {} depth (Item.nodes rules source c items)).map (·.1.token)
      = c.tokens rules source (Item.piecesAll items)
  | [], _, _ => rfl
  | i :: is, c, depth => by
    rw [Item.nodes, Node.preorderAll, List.map_append, Item.piecesAll, Cursor.tokens_append,
      token_preorder_node i, token_preorderAll_nodes is]

end

/-- A walk meets the tokens of a forest in the order of its pieces. -/
theorem token_flatten_nodes (c : Cursor) (items : List Item) :
    (flatten (Item.nodes rules source c items)).map Node.token
      = c.tokens rules source (Item.piecesAll items) := by
  rw [flatten_eq_preorderAll, List.map_map]
  exact token_preorderAll_nodes rules source items c 0

mutual

theorem plain_of_mem_preorder_node : ∀ (i : Item) (c : Cursor) (depth : UInt64),
    ∀ v ∈ (i.node rules source c).preorder {} depth, v.1.Plain
  | .element name items, c, depth => by
    intro v hv
    rw [preorder_element, List.mem_cons, List.mem_append] at hv
    rcases hv with rfl | hinside | hpear
    · refine ⟨rfl, rfl, fun p hp => ?_⟩
      rw [← Option.some.inj hp]
      rfl
    · exact plain_of_mem_preorderAll_nodes items _ _ v hinside
    · rw [List.mem_singleton.mp hpear]
      exact ⟨rfl, rfl, fun _ h => nomatch h⟩
  | .mustache _, _, _ => by
    intro v hv
    rw [List.mem_singleton.mp hv]
    exact ⟨rfl, rfl, fun _ h => nomatch h⟩
  | .text _, _, _ => by
    intro v hv
    rw [List.mem_singleton.mp hv]
    exact ⟨rfl, rfl, fun _ h => nomatch h⟩

theorem plain_of_mem_preorderAll_nodes : ∀ (items : List Item) (c : Cursor) (depth : UInt64),
    ∀ v ∈ Node.preorderAll {} depth (Item.nodes rules source c items), v.1.Plain
  | [], _, _ => fun _ hv => nomatch hv
  | i :: is, c, depth => by
    intro v hv
    rw [Item.nodes, Node.preorderAll, List.mem_append] at hv
    rcases hv with hfirst | hrest
    · exact plain_of_mem_preorder_node i c depth v hfirst
    · exact plain_of_mem_preorderAll_nodes is _ depth v hrest

end

theorem plain_of_mem_flatten_nodes {c : Cursor} {items : List Item} {n : Node}
    (h : n ∈ flatten (Item.nodes rules source c items)) : n.Plain := by
  rw [flatten_eq_preorderAll] at h
  obtain ⟨v, hv, rfl⟩ := List.mem_map.mp h
  exact plain_of_mem_preorderAll_nodes rules source items c 0 v hv

end

end Tags

end MarkupTree
