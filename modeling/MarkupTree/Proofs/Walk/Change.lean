import MarkupTree.Proofs.Walk.Places

/-!
# Changing one node

A node of a forest is changed at its place. The nodes on the way to it then have other children or
another pear, but a walk goes the same way as before. What it collects from each node by itself is
the same as well, but for the one piece that comes from the changed node.

* `Exchanged` — lists that are the same but for one piece
* `exchanged_flatMap_flatten` — what a walk collects from a forest with one node changed
-/

namespace MarkupTree

/-! ## Lists that differ in one piece -/

/-- Two lists are the same, but where `xs` has the piece `x`, `ys` has `y`. -/
def Exchanged {α : Type} (x y xs ys : List α) : Prop :=
  ∃ earlier later, xs = earlier ++ x ++ later ∧ ys = earlier ++ y ++ later

namespace Exchanged

variable {α β : Type} {x y xs ys : List α}

theorem self (x y : List α) : Exchanged x y x y := ⟨[], [], by simp, by simp⟩

/-- A piece of a piece. -/
theorem trans {as bs : List α} (h : Exchanged x y xs ys) (h' : Exchanged xs ys as bs) :
    Exchanged x y as bs := by
  obtain ⟨earlier, later, rfl, rfl⟩ := h
  obtain ⟨earlier', later', rfl, rfl⟩ := h'
  exact ⟨earlier' ++ earlier, later ++ later', by simp, by simp⟩

theorem append_right (h : Exchanged x y xs ys) (zs : List α) :
    Exchanged x y (xs ++ zs) (ys ++ zs) :=
  h.trans ⟨[], zs, by simp, by simp⟩

theorem append_left (h : Exchanged x y xs ys) (zs : List α) :
    Exchanged x y (zs ++ xs) (zs ++ ys) :=
  h.trans ⟨zs, [], by simp, by simp⟩

theorem flatMap (h : Exchanged x y xs ys) (f : α → List β) :
    Exchanged (x.flatMap f) (y.flatMap f) (xs.flatMap f) (ys.flatMap f) := by
  obtain ⟨earlier, later, rfl, rfl⟩ := h
  exact ⟨earlier.flatMap f, later.flatMap f, by simp, by simp⟩

theorem filterMap (h : Exchanged x y xs ys) (f : α → Option β) :
    Exchanged (x.filterMap f) (y.filterMap f) (xs.filterMap f) (ys.filterMap f) := by
  obtain ⟨earlier, later, rfl, rfl⟩ := h
  exact ⟨earlier.filterMap f, later.filterMap f, by simp, by simp⟩

theorem mem_left {a : α} (h : Exchanged [a] y xs ys) : a ∈ xs := by
  obtain ⟨earlier, later, rfl, -⟩ := h
  simp

theorem mem_right {b : α} (h : Exchanged x [b] xs ys) : b ∈ ys := by
  obtain ⟨earlier, later, -, rfl⟩ := h
  simp

/-- Changing an element exchanges it. -/
theorem modify {i : Nat} {a : α} (h : xs[i]? = some a) (f : α → α) :
    Exchanged [a] [f a] xs (xs.modify i f) := by
  obtain ⟨hi, rfl⟩ := List.getElem?_eq_some_iff.mp h
  refine ⟨xs.take i, xs.drop (i + 1), ?_, ?_⟩
  · simp
  · simp [List.modify_eq_take_cons_drop hi]

end Exchanged

/-! ## Forests with one node changed -/

/-- A node with the node at a place of its tree changed. -/
def Node.changed (f : Node → Node) : Place → Node → Node
  | [], n => f n
  | .child i :: p, n => { n with children := n.children.modify i (changed f p) }
  | .pear :: p, n => { n with pear := n.pear.map (changed f p) }

/-- A forest with the node at a place changed. -/
def Place.changed (f : Node → Node) : Place → List Node → List Node
  | .child i :: p, nodes => nodes.modify i (Node.changed f p)
  | [], nodes | .pear :: _, nodes => nodes

/-! ## The walk -/

/-- What a walk collects from a node that it goes into: from the node, from what belongs to its
children, and from its pear. -/
theorem flatMap_preorder_of_entered {α : Type} {n : Node} (hentered : n.isEntered = true)
    (g : Node → List α) (depth : UInt64) :
    (n.preorder {} depth).flatMap (g ·.1)
      = g n ++ (n.children.flatMap (fun c => (c.preorder {} (depth + 1)).flatMap (g ·.1))
          ++ n.pear.toList.flatMap g) := by
  obtain ⟨kind, token, name, isGhost, children, pear, attributes⟩ := n
  have hadmits : ({} : WalkConfig).admits (depth + 1) = true := rfl
  rw [Node.preorder, if_pos hentered, if_pos hadmits, preorderAll_eq_flatMap, List.flatMap_cons,
    List.flatMap_append, List.flatMap_assoc, List.flatMap_map]

section

variable {α : Type} {g : Node → List α} {f : Node → Node}

/-- A walk collects from each node what it says apart from its children and its pear. From the tree
of a node in which one visited node is changed, but so that the walk goes on from it as before, it
collects the same except for what comes from that node. -/
theorem exchanged_flatMap_preorder
    (hg : ∀ (n : Node) children pear, g { n with children, pear } = g n)
    (hf : ∀ n depth, (f n).steps {} depth = n.steps {} depth) :
    ∀ (p : Place) (n : Node) {m : Node}, p ∈ n.places → n.at? p = some m → ∀ depth,
      Exchanged (g m) (g (f m)) ((n.preorder {} depth).flatMap (g ·.1))
        (((n.changed f p).preorder {} depth).flatMap (g ·.1))
  | [], n, m => by
    intro _ hm depth
    obtain rfl : n = m := Option.some.inj (n.at?_nil.symm.trans hm)
    rw [Node.changed, preorder_eq_cons, preorder_eq_cons, hf]
    exact (Exchanged.self _ _).append_right _
  | .child i :: p, n, m => by
    intro hp hm depth
    obtain ⟨hentered, c, hc, hp⟩ := child_mem_places_iff.mp hp
    rw [Node.at?_child, hc, Option.bind_some] at hm
    -- what comes from the child is exchanged in what comes from all children
    have hchild := exchanged_flatMap_preorder hg hf p c hp hm (depth + 1)
    have hchildren := (Exchanged.modify hc (Node.changed f p)).flatMap
      fun c => (c.preorder {} (depth + 1)).flatMap (g ·.1)
    rw [List.flatMap_singleton, List.flatMap_singleton] at hchildren
    have hnow : (n.changed f (.child i :: p)).isEntered = true := hentered
    rw [flatMap_preorder_of_entered hentered, flatMap_preorder_of_entered hnow, Node.changed, hg]
    exact ((hchild.trans hchildren).append_right _).append_left _
  | .pear :: p, n, m => by
    intro hp hm depth
    obtain ⟨rfl, hentered, hpear⟩ := pear_mem_places_iff.mp hp
    rw [Node.at?_pear] at hm
    have hnow : (n.changed f [.pear]).isEntered = true := hentered
    rw [flatMap_preorder_of_entered hentered, flatMap_preorder_of_entered hnow, Node.changed, hg,
      hm, Option.map_some, Option.toList_some, Option.toList_some, List.flatMap_singleton,
      List.flatMap_singleton, Node.changed]
    exact ((Exchanged.self _ _).append_left _).append_left _

/-- The same of a forest. -/
theorem exchanged_flatMap_flatten
    (hg : ∀ (n : Node) children pear, g { n with children, pear } = g n)
    (hf : ∀ n depth, (f n).steps {} depth = n.steps {} depth) {nodes : List Node} {p : Place}
    {m : Node} (hp : p ∈ Node.placesFrom 0 nodes) (hm : Place.node? nodes p = some m) :
    Exchanged (g m) (g (f m)) ((flatten nodes).flatMap g)
      ((flatten (Place.changed f p nodes)).flatMap g) := by
  rcases p with _ | ⟨i | -, p⟩
  · exact nomatch hm
  · obtain ⟨n, hn, hp⟩ := child_mem_placesFrom_iff.mp hp
    rw [Place.node?, hn, Option.bind_some] at hm
    have hnode := exchanged_flatMap_preorder hg hf p n hp hm 0
    have hforest := (Exchanged.modify hn (Node.changed f p)).flatMap
      fun n => (n.preorder {} 0).flatMap (g ·.1)
    rw [List.flatMap_singleton, List.flatMap_singleton] at hforest
    simp only [flatten_eq_preorderAll, preorderAll_eq_flatMap, List.flatMap_map, List.flatMap_assoc]
    exact hnode.trans hforest
  · exact nomatch hm

end

end MarkupTree
