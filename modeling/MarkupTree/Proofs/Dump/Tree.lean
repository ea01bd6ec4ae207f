import MarkupTree.Proofs.Dump.Line

/-!
# What the dump of a forest tells

A dump has a line for each visit of a walk, so two forests that have one dump are walked in the same
number of visits, and visit by visit the lines are the same. A line tells whether its node is a
ghost, for only ghosts have no place, and if not, where it stands. The label and the drawing of the
text it tells of every node.

* `node_eq_node_iff` — what is known from the line of a node
* `tree_eq_tree_iff` — what is known from the dump of a forest
-/

namespace MarkupTree

open Text

namespace Node

/-- The label of a node: its name, or that of its kind if it has none and is no ghost. -/
def label (n : Node) : List Char :=
  if n.isGhost then n.name else Dump.firstName [some n.name] n.kind.tag

/-- Two nodes that are drawn alike, at the same place unless they are ghosts. -/
structure DrawnAlike (n m : Node) : Prop where
  ghost : n.isGhost = m.isGhost
  place : n.isGhost = false → n.token.SamePlace m.token
  label : n.label = m.label
  text : Text.DrawnAlike n.raw m.raw

end Node

namespace Dump

theorem node_of_ghost {n : Node} (h : n.isGhost = true) :
    node n = noPlace ++ (n.label ++ ':' :: ' ' :: visible n.raw) := by
  simp [node, line, Node.label, h]

theorem node_of_not_ghost {n : Node} (h : n.isGhost = false) :
    node n = place n.token ++ (n.label ++ ':' :: ' ' :: visible n.raw) := by
  simp [node, tokenLine, line, Node.label, Node.raw, h]

/-- Two nodes have one line exactly when they are drawn alike. -/
theorem node_eq_node_iff {n m : Node} : node n = node m ↔ n.DrawnAlike m := by
  cases hn : n.isGhost with
  | true =>
    cases hm : m.isGhost with
    | true =>
      rw [node_of_ghost hn, node_of_ghost hm, List.append_cancel_left_eq, caption_inj]
      constructor
      · rintro ⟨hlabel, htext⟩
        exact ⟨hn.trans hm.symm, fun h => by simp [hn] at h, hlabel, htext⟩
      · exact fun h => ⟨h.label, h.text⟩
    | false =>
      rw [node_of_ghost hn, node_of_not_ghost hm]
      exact iff_of_false (noPlace_append_ne _ _) fun h => by simpa [hn, hm] using h.ghost
  | false =>
    cases hm : m.isGhost with
    | true =>
      rw [node_of_not_ghost hn, node_of_ghost hm]
      exact iff_of_false (noPlace_append_ne _ _).symm fun h => by simpa [hn, hm] using h.ghost
    | false =>
      rw [node_of_not_ghost hn, node_of_not_ghost hm, place_append_inj, caption_inj]
      constructor
      · rintro ⟨hplace, hlabel, htext⟩
        exact ⟨hn.trans hm.symm, fun _ => hplace, hlabel, htext⟩
      · exact fun h => ⟨h.place hn, h.label, h.text⟩

/-- Two forests have one dump exactly when they are walked in the same number of visits and the
nodes of each visit are drawn alike. -/
theorem tree_eq_tree_iff (nodes others : List Node) :
    tree nodes = tree others ↔ List.Forall₂ Node.DrawnAlike (flatten nodes) (flatten others) := by
  unfold tree nodeList
  rw [← List.forall₂_eq_eq_eq, List.forall₂_map_left_iff, List.forall₂_map_right_iff]
  simp only [node_eq_node_iff]

end Dump

end MarkupTree
