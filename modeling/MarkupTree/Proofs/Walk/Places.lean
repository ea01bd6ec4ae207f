import MarkupTree.Walk.Preorder
import Mathlib.Data.List.Nodup

/-!
# The places of a forest

Equal nodes may stand at many places of a forest, so where a walk goes is said of places: a place is
the way to a node, from child to child or to a pear. Every node has one, also those behind a pear or
in an end tag, which a walk never sees.

* `Place.everywhere_cons_iff` — what holds at every place holds of the first tree and of the rest
* `map_at?_places`, `map_node?_placesFrom` — a walk makes its visits place by place
* `mem_flatten_iff` — the nodes that a walk meets are those at its places
* `pairwise_places` — in the order of the tree, so at no place twice
* `mem_places_iff` — at the places that it enters and at the pears of what it enters
-/

namespace MarkupTree

/-! ## Places -/

/-- A turn on the way to a node. -/
inductive Turn where
  | child (i : Nat)
  | pear
deriving DecidableEq, Repr

/-- The way to a node. In a forest the first turn leads to one of its top nodes. -/
abbrev Place := List Turn

/-- The node to which a way leads from a node. -/
def Node.at? : Node → Place → Option Node
  | n, [] => some n
  | n, .child i :: p => n.children[i]?.bind (·.at? p)
  | n, .pear :: p => n.pear.bind (·.at? p)

@[simp] theorem Node.at?_nil (n : Node) : n.at? [] = some n := by rw [Node.at?]

theorem Node.at?_child (n : Node) (i : Nat) (p : Place) :
    n.at? (.child i :: p) = n.children[i]?.bind (·.at? p) := by rw [Node.at?]

namespace Place

/-- The node at a place of a forest. -/
def node? (nodes : List Node) : Place → Option Node
  | .child i :: p => nodes[i]?.bind (·.at? p)
  | [] | .pear :: _ => none

/-- The indices of the children on the way. -/
def path (p : Place) : List Nat := p.filterMap fun
  | .child i => some i
  | .pear => none

@[simp] theorem path_child (i : Nat) (p : Place) : path (.child i :: p) = i :: path p := rfl

theorem path_append (p q : Place) : path (p ++ q) = path p ++ path q := List.filterMap_append

/-- A turn comes before another: children in their order, and then the pear. -/
def turnsBefore : Turn → Turn → Prop
  | .child i, .child j => i < j
  | .child _, .pear => True
  | .pear, _ => False

/-- Places in the order of the tree: a node, what belongs to its children, and then its pear. -/
def Before : Place → Place → Prop := List.Lex turnsBefore

theorem before_irrefl (p : Place) : ¬Before p p := by
  refine List.lex_irrefl (fun t => ?_) p
  cases t with
  | child i => exact Nat.lt_irrefl i
  | pear => exact id

end Place

/-! ## Everywhere in a forest -/

/-- Every node of a forest has a property, wherever it stands. -/
def Place.Everywhere (P : Node → Prop) (nodes : List Node) : Prop :=
  ∀ p n, Place.node? nodes p = some n → P n

section

variable {P : Node → Prop} {n : Node} {ns : List Node}

theorem Place.everywhere_iff :
    Place.Everywhere P ns ↔ ∀ n ∈ ns, ∀ p m, n.at? p = some m → P m := by
  constructor
  · intro h n hn p m hm
    obtain ⟨i, hi⟩ := List.mem_iff_getElem?.mp hn
    exact h (.child i :: p) m (by rw [node?, hi]; exact hm)
  · rintro h (_ | ⟨i | -, p⟩) m hm
    · exact nomatch hm
    · obtain ⟨n, hn, hm⟩ := Option.bind_eq_some_iff.mp hm
      exact h n (List.mem_of_getElem? hn) p m hm
    · exact nomatch hm

/-- From a node, ways lead to the node itself, to its children and what belongs to them, and to its
pear and what belongs to that. -/
theorem Node.forall_at?_iff :
    (∀ p m, n.at? p = some m → P m) ↔
      P n ∧ Place.Everywhere P n.children ∧ Place.Everywhere P n.pear.toList := by
  rw [Place.everywhere_iff, Place.everywhere_iff]
  constructor
  · intro h
    refine ⟨h [] n (at?_nil n), fun c hc p m hm => ?_, fun q hq p m hm => ?_⟩
    · obtain ⟨i, hi⟩ := List.mem_iff_getElem?.mp hc
      exact h (.child i :: p) m (by rw [at?_child, hi]; exact hm)
    · exact h (.pear :: p) m (by rw [at?, Option.mem_toList.mp hq]; exact hm)
  · rintro ⟨hn, hchildren, hpear⟩ (_ | ⟨i | -, p⟩) m hm
    · rw [at?_nil, Option.some.injEq] at hm
      exact hm ▸ hn
    · rw [at?_child] at hm
      obtain ⟨c, hc, hm⟩ := Option.bind_eq_some_iff.mp hm
      exact hchildren c (List.mem_of_getElem? hc) p m hm
    · rw [at?] at hm
      obtain ⟨q, hq, hm⟩ := Option.bind_eq_some_iff.mp hm
      exact hpear q (Option.mem_toList.mpr hq) p m hm

@[simp] theorem Place.everywhere_nil : Place.Everywhere P [] :=
  everywhere_iff.mpr fun _ h => absurd h List.not_mem_nil

@[simp] theorem Place.everywhere_cons_iff :
    Place.Everywhere P (n :: ns) ↔
      (P n ∧ Place.Everywhere P n.children ∧ Place.Everywhere P n.pear.toList) ∧
        Place.Everywhere P ns := by
  rw [everywhere_iff, List.forall_mem_cons, Node.forall_at?_iff, ← everywhere_iff]

end

/-! ## Entered places -/

/-- Only children lead to a place, and every node on the way to it is one that a walk goes on
from. -/
structure Entered (look : Place → Option Node) (p : Place) : Prop where
  byChildren : Turn.pear ∉ p
  leads : ∃ n, look p = some n
  through : ∀ q n, q <+: p → q ≠ p → look q = some n → n.isEntered = true

/-- A place is that of the pear of an entered node that a walk goes on from. -/
def EnteredPear (look : Place → Option Node) (p : Place) : Prop :=
  ∃ q n, p = q ++ [.pear] ∧ Entered look q ∧ look q = some n ∧ n.isEntered = true ∧
    n.pear.isSome = true

/-! ## One turn -/

section

variable {look : Place → Option Node} {p : Place}

theorem entered_nil_iff : Entered look [] ↔ ∃ n, look [] = some n := by
  constructor
  · exact Entered.leads
  · intro h
    exact ⟨List.not_mem_nil, h, fun q n hq hne => absurd (List.prefix_nil.mp hq) hne⟩

/-- Behind a first turn to a child, a place is entered as seen from there. -/
theorem entered_child_iff {i : Nat} :
    Entered look (.child i :: p) ↔
      (∀ n, look [] = some n → n.isEntered = true) ∧ Entered (fun q => look (.child i :: q)) p := by
  constructor
  · rintro ⟨hpear, hleads, hthrough⟩
    refine ⟨fun n hn => hthrough [] n List.nil_prefix (by simp) hn, ?_, hleads, ?_⟩
    · exact fun h => hpear (List.mem_cons_of_mem _ h)
    · intro q n hq hne hn
      exact hthrough (.child i :: q) n (List.cons_prefix_cons.mpr ⟨rfl, hq⟩) (by simpa using hne) hn
  · rintro ⟨hfirst, hpear, hleads, hthrough⟩
    refine ⟨by simpa using hpear, hleads, fun q n hq hne hn => ?_⟩
    rcases List.prefix_cons_iff.mp hq with rfl | ⟨r, rfl, hr⟩
    · exact hfirst n hn
    · exact hthrough r n hr (by simpa using hne) hn

theorem not_entered_pear : ¬Entered look (.pear :: p) :=
  fun h => h.byChildren List.mem_cons_self

theorem not_enteredPear_nil : ¬EnteredPear look [] := by
  rintro ⟨q, n, h, -⟩
  simp at h

theorem enteredPear_child_iff {i : Nat} :
    EnteredPear look (.child i :: p) ↔
      (∀ n, look [] = some n → n.isEntered = true) ∧
        EnteredPear (fun q => look (.child i :: q)) p := by
  constructor
  · rintro ⟨q, n, hp, hq, hn, hpear⟩
    cases q with
    | nil => simp at hp
    | cons t q =>
      obtain ⟨rfl, rfl⟩ := List.cons.inj hp
      obtain ⟨hfirst, hq⟩ := entered_child_iff.mp hq
      exact ⟨hfirst, q, n, rfl, hq, hn, hpear⟩
  · rintro ⟨hfirst, q, n, rfl, hq, hn, hpear⟩
    exact ⟨.child i :: q, n, rfl, entered_child_iff.mpr ⟨hfirst, hq⟩, hn, hpear⟩

theorem enteredPear_pear_iff :
    EnteredPear look (.pear :: p) ↔
      p = [] ∧ ∃ n, look [] = some n ∧ n.isEntered = true ∧ n.pear.isSome = true := by
  constructor
  · rintro ⟨q, n, hp, hq, hn, hpear⟩
    cases q with
    | nil => exact ⟨(List.cons.inj hp).2, n, hn, hpear⟩
    | cons t q =>
      obtain ⟨rfl, -⟩ := List.cons.inj hp
      exact absurd hq not_entered_pear
  · rintro ⟨rfl, n, hn, hpear⟩
    exact ⟨[], n, rfl, entered_nil_iff.mpr ⟨n, hn⟩, hn, hpear⟩

end

/-! ## The places of a walk -/

/-- The node at a place of a forest with the level of the place as far as it fits into a word, when
the level of the top nodes is `depth`. -/
def Place.visitWord? (nodes : List Node) (depth : Nat) (p : Place) : Option (Node × UInt64) :=
  (node? nodes p).map fun n => (n, .ofNat (depth + p.path.length - 1))

mutual

/-- The places of the tree of a node that a walk visits, as seen from that node. -/
def Node.places : Node → List Place
  | n@⟨_, _, _, _, children, pear, _⟩ =>
    [] :: (if n.isEntered then placesFrom 0 children ++ pear.toList.map fun _ => [.pear] else [])

/-- The places of a forest that a walk visits, when the first node of the forest has index `i`. -/
def Node.placesFrom (i : Nat) : List Node → List Place
  | [] => []
  | n :: ns => n.places.map (.child i :: ·) ++ placesFrom (i + 1) ns

end

/-- The places of a forest are those of its nodes, behind the turns to these. -/
theorem mem_placesFrom_iff {p : Place} : ∀ {i : Nat} {ns : List Node},
    p ∈ Node.placesFrom i ns ↔
      ∃ k n q, ns[k]? = some n ∧ p = .child (i + k) :: q ∧ q ∈ n.places
  | i, [] => by simp [Node.placesFrom]
  | i, n :: ns => by
    rw [Node.placesFrom, List.mem_append, List.mem_map, mem_placesFrom_iff]
    constructor
    · rintro (⟨q, hq, rfl⟩ | ⟨k, m, q, hm, rfl, hq⟩)
      · exact ⟨0, n, q, rfl, rfl, hq⟩
      · exact ⟨k + 1, m, q, hm, by rw [Nat.add_right_comm, Nat.add_assoc], hq⟩
    · rintro ⟨k, m, q, hm, rfl, hq⟩
      cases k with
      | zero =>
        obtain rfl : n = m := Option.some.inj hm
        exact Or.inl ⟨q, hq, rfl⟩
      | succ k =>
        exact Or.inr ⟨k, m, q, hm, by rw [Nat.add_right_comm, Nat.add_assoc], hq⟩

mutual

/-- From a node, a walk makes its visits place by place. -/
theorem map_at?_places {config : WalkConfig} (hall : ∀ d, config.admits d = true) (depth : Nat) :
    ∀ n : Node,
      n.places.map (fun p => (n.at? p).map fun m => (m, UInt64.ofNat (depth + p.path.length)))
        = (n.preorder config (.ofNat depth)).map some
  | ⟨kind, token, name, isGhost, children, pear, attributes⟩ => by
    have hchildren := map_node?_placesFrom hall (depth + 1) [] children
    have hnext : UInt64.ofNat depth + 1 = .ofNat (depth + 1) := (UInt64.ofNat_add depth 1).symm
    rw [Node.places, Node.preorder, List.map_cons, List.map_cons, hall, if_pos rfl, hnext]
    congr 1
    split
    · rw [List.map_append, List.map_append]
      congr 1
      · rw [← hchildren]
        refine List.map_congr_left fun p hp => ?_
        obtain ⟨k, m, q, -, rfl, -⟩ := mem_placesFrom_iff.mp hp
        have hlevel : depth + (Place.path q).length.succ = depth + 1 + (Place.path q).length := by
          omega
        rw [Place.path_child, List.length_cons, hlevel]
        rfl
      · cases pear <;> rfl
    · rfl

/-- The same of a forest, behind other nodes. -/
theorem map_node?_placesFrom {config : WalkConfig} (hall : ∀ d, config.admits d = true)
    (depth : Nat) (lead : List Node) : ∀ ns : List Node,
      (Node.placesFrom lead.length ns).map (Place.visitWord? (lead ++ ns) depth)
        = (Node.preorderAll config (.ofNat depth) ns).map some
  | [] => by rw [Node.placesFrom, Node.preorderAll, List.map_nil, List.map_nil]
  | n :: ns => by
    have hfirst := map_at?_places hall depth n
    have hrest := map_node?_placesFrom hall depth (lead ++ [n]) ns
    rw [List.length_append, List.append_assoc] at hrest
    rw [Node.placesFrom, Node.preorderAll, List.map_append, List.map_append, ← hfirst,
      List.map_map]
    refine congrArg₂ (· ++ ·) (List.map_congr_left fun p _ => ?_) hrest
    have hnode : Place.node? (lead ++ n :: ns) (.child lead.length :: p) = n.at? p := by
      simp [Place.node?]
    rw [Function.comp_apply, Place.visitWord?, hnode]
    rfl

end

theorem map_node?_flatten (nodes : List Node) :
    (Node.placesFrom 0 nodes).map (Place.node? nodes) = (flatten nodes).map some := by
  have hall : ∀ d, ({} : WalkConfig).admits d = true := fun _ => rfl
  have hvisits := congrArg (List.map (Option.map Prod.fst))
    (map_node?_placesFrom hall 0 [] nodes)
  rw [List.map_map, List.map_map] at hvisits
  rw [flatten_eq_preorderAll, List.map_map]
  refine Eq.trans (List.map_congr_left fun p _ => ?_) hvisits
  cases hn : Place.node? nodes p <;> simp [Place.visitWord?, hn]

/-- The nodes that a walk meets are those at its places. -/
theorem mem_flatten_iff {nodes : List Node} {n : Node} :
    n ∈ flatten nodes ↔ ∃ p ∈ Node.placesFrom 0 nodes, Place.node? nodes p = some n := by
  have hsome : some n ∈ (flatten nodes).map some ↔ n ∈ flatten nodes := by simp
  rw [← hsome, ← map_node?_flatten, List.mem_map]

/-! ## The order of the places -/

mutual

/-- The places of a walk are in the order of the tree. -/
theorem pairwise_places : ∀ n : Node, n.places.Pairwise Place.Before
  | ⟨kind, token, name, isGhost, children, pear, attributes⟩ => by
    have hchildren := pairwise_placesFrom 0 children
    rw [Node.places]
    split
    · refine List.pairwise_cons.mpr ⟨fun p hp => ?_, List.pairwise_append.mpr
        ⟨hchildren, by cases pear <;> simp, fun p hp q hq => ?_⟩⟩
      · -- the node itself is in front of all that belongs to it
        rcases List.mem_append.mp hp with hp | hp
        · obtain ⟨k, m, q, -, rfl, -⟩ := mem_placesFrom_iff.mp hp
          exact List.Lex.nil
        · obtain ⟨-, -, rfl⟩ := List.mem_map.mp hp
          exact List.Lex.nil
      · obtain ⟨k, m, r, -, rfl, -⟩ := mem_placesFrom_iff.mp hp
        obtain ⟨-, -, rfl⟩ := List.mem_map.mp hq
        exact List.Lex.rel trivial
    · exact List.pairwise_singleton _ _

/-- The same of a forest. -/
theorem pairwise_placesFrom (i : Nat) : ∀ ns : List Node,
    (Node.placesFrom i ns).Pairwise Place.Before
  | [] => by
    rw [Node.placesFrom]
    exact List.Pairwise.nil
  | n :: ns => by
    have hfirst := pairwise_places n
    have hrest := pairwise_placesFrom (i + 1) ns
    rw [Node.placesFrom, List.pairwise_append, List.pairwise_map]
    refine ⟨hfirst.imp List.Lex.cons, hrest, fun p hp q hq => ?_⟩
    obtain ⟨r, -, rfl⟩ := List.mem_map.mp hp
    obtain ⟨k, m, r', -, rfl, -⟩ := mem_placesFrom_iff.mp hq
    exact List.Lex.rel (show i < i + 1 + k by omega)

end

/-! ## Which places they are -/

/-- Where a turn leads to no node, a walk goes nowhere, and otherwise it goes on from that node. -/
theorem entered_or_pear_bind_iff {first : Option Node} {p : Place} :
    Entered (fun q => first.bind (·.at? q)) p ∨ EnteredPear (fun q => first.bind (·.at? q)) p ↔
      ∃ n, first = some n ∧ (Entered n.at? p ∨ EnteredPear n.at? p) := by
  cases first with
  | none =>
    refine iff_of_false ?_ (by simp)
    rintro (⟨-, ⟨n, hn⟩, -⟩ | ⟨q, n, -, -, hn, -⟩) <;> exact nomatch hn
  | some n => simp

theorem child_mem_placesFrom_iff {nodes : List Node} {i : Nat} {p : Place} :
    .child i :: p ∈ Node.placesFrom 0 nodes ↔ ∃ n, nodes[i]? = some n ∧ p ∈ n.places := by
  simp [mem_placesFrom_iff]

theorem nil_mem_places (n : Node) : [] ∈ n.places := by
  obtain ⟨kind, token, name, isGhost, children, pear, attributes⟩ := n
  rw [Node.places]
  exact List.mem_cons_self

theorem child_mem_places_iff {n : Node} {i : Nat} {p : Place} :
    .child i :: p ∈ n.places ↔
      n.isEntered = true ∧ ∃ m, n.children[i]? = some m ∧ p ∈ m.places := by
  obtain ⟨kind, token, name, isGhost, children, pear, attributes⟩ := n
  have hnot : .child i :: p ∉ pear.toList.map fun _ => [Turn.pear] := by simp
  rw [Node.places, List.mem_cons, or_iff_right (List.cons_ne_nil _ _)]
  split
  next hentered =>
    rw [List.mem_append, or_iff_left hnot, child_mem_placesFrom_iff, and_iff_right hentered]
  next hentered => exact iff_of_false List.not_mem_nil (mt And.left hentered)

theorem pear_mem_places_iff {n : Node} {p : Place} :
    .pear :: p ∈ n.places ↔ p = [] ∧ n.isEntered = true ∧ n.pear.isSome = true := by
  obtain ⟨kind, token, name, isGhost, children, pear, attributes⟩ := n
  have hnot : .pear :: p ∉ Node.placesFrom 0 children := by simp [mem_placesFrom_iff]
  rw [Node.places, List.mem_cons, or_iff_right (List.cons_ne_nil _ _)]
  split
  next hentered =>
    rw [List.mem_append, or_iff_right hnot, and_iff_right hentered]
    cases pear <;> simp
  next hentered => exact iff_of_false List.not_mem_nil fun h => hentered h.2.1

mutual

/-- In the tree of a node, a walk visits the places that it enters and the pears of what it
enters. -/
theorem mem_places_iff : ∀ (n : Node) (p : Place),
    p ∈ n.places ↔ Entered n.at? p ∨ EnteredPear n.at? p
  | n, [] => iff_of_true (nil_mem_places n) (Or.inl (entered_nil_iff.mpr ⟨n, Node.at?_nil n⟩))
  | ⟨kind, token, name, isGhost, children, pear, attributes⟩, .child i :: p => by
    have hchildren := mem_places_iff_of_mem children
    simp only [child_mem_places_iff, entered_child_iff, enteredPear_child_iff, ← and_or_left,
      Node.at?_nil, Node.at?_child, Option.some.injEq, forall_eq', entered_or_pear_bind_iff]
    refine and_congr_right fun _ => exists_congr fun m => and_congr_right fun hm => ?_
    exact hchildren m (List.mem_of_getElem? hm) p
  | n, .pear :: p => by
    simp [pear_mem_places_iff, enteredPear_pear_iff, not_entered_pear, Node.at?_nil]

/-- The same of every node of a forest. -/
theorem mem_places_iff_of_mem : ∀ ns : List Node, ∀ n ∈ ns, ∀ p : Place,
    p ∈ n.places ↔ Entered n.at? p ∨ EnteredPear n.at? p
  | [] => fun _ hn => absurd hn List.not_mem_nil
  | n :: ns => by
    have hfirst := mem_places_iff n
    have hrest := mem_places_iff_of_mem ns
    exact List.forall_mem_cons.mpr ⟨hfirst, hrest⟩

end

/-- In a forest, a walk visits the places that it enters and the pears of what it enters. -/
theorem mem_placesFrom_zero_iff (nodes : List Node) (p : Place) :
    p ∈ Node.placesFrom 0 nodes ↔
      Entered (Place.node? nodes) p ∨ EnteredPear (Place.node? nodes) p := by
  cases p with
  | nil => simp [mem_placesFrom_iff, entered_nil_iff, not_enteredPear_nil, Place.node?]
  | cons t p =>
    cases t with
    | child i =>
      simp only [child_mem_placesFrom_iff, entered_child_iff, enteredPear_child_iff, Place.node?,
        reduceCtorEq, false_imp_iff, implies_true, true_and, entered_or_pear_bind_iff]
      refine exists_congr fun n => and_congr_right fun _ => mem_places_iff n p
    | pear =>
      simp [mem_placesFrom_iff, not_entered_pear, enteredPear_pear_iff, Place.node?]

/-- What is behind a visited place belongs to a node that a walk goes on from. -/
theorem through_of_append_singleton {look : Place → Option Node} {p : Place} {t : Turn}
    (h : Entered look (p ++ [t]) ∨ EnteredPear look (p ++ [t])) :
    Turn.pear ∉ p ∧ ∀ n, look p = some n → n.isEntered = true := by
  rcases h with ⟨hpear, -, hthrough⟩ | ⟨q, n, hp, hq, hn, hentered, -⟩
  · refine ⟨fun h => hpear (List.mem_append_left _ h), fun n => ?_⟩
    exact hthrough p n (List.prefix_append p [t]) (by simp)
  · obtain ⟨rfl, -⟩ := List.append_inj' hp rfl
    refine ⟨hq.byChildren, fun m hm => ?_⟩
    obtain rfl : n = m := Option.some.inj (hn.symm.trans hm)
    exact hentered

/-- A way that goes on leads on from the node that it has come to. -/
theorem Node.at?_append : ∀ (p q : Place) (n : Node),
    n.at? (p ++ q) = (n.at? p).bind (·.at? q)
  | [], q, n => by rw [List.nil_append, at?_nil, Option.bind_some]
  | .child i :: p, q, n => by
    rw [List.cons_append, at?_child, at?_child, Option.bind_assoc]
    exact Option.bind_congr fun m _ => at?_append p q m
  | .pear :: p, q, n => by
    rw [List.cons_append, at?, at?, Option.bind_assoc]
    exact Option.bind_congr fun m _ => at?_append p q m

theorem Node.at?_pear (n : Node) : n.at? [.pear] = n.pear := by
  rw [at?]
  cases n.pear <;> simp

theorem Place.node?_append {nodes : List Node} {p : Place} (hp : p ≠ []) (q : Place) :
    node? nodes (p ++ q) = (node? nodes p).bind (·.at? q) := by
  cases p with
  | nil => exact absurd rfl hp
  | cons t p =>
    cases t with
    | child i =>
      rw [List.cons_append, node?, node?, Option.bind_assoc]
      exact Option.bind_congr fun m _ => Node.at?_append p q m
    | pear => rfl

/-- Behind the way to a node, one more turn leads to its pear. -/
theorem Place.node?_append_pear (nodes : List Node) (p : Place) :
    node? nodes (p ++ [.pear]) = (node? nodes p).bind Node.pear := by
  cases p with
  | nil => rfl
  | cons t p =>
    rw [node?_append (List.cons_ne_nil t p)]
    exact Option.bind_congr fun n _ => n.at?_pear

/-- Where a walk comes by way of children alone, it enters. -/
theorem entered_of_mem_placesFrom {nodes : List Node} {p : Place}
    (hp : p ∈ Node.placesFrom 0 nodes) (hchildren : Turn.pear ∉ p) :
    Entered (Place.node? nodes) p := by
  refine ((mem_placesFrom_zero_iff nodes p).mp hp).resolve_right ?_
  rintro ⟨q, -, rfl, -⟩
  exact hchildren (by simp)

/-- From an entered node that it goes on from, a walk enters each child. -/
theorem Entered.append_child {nodes : List Node} {p : Place} {n c : Node} {i : Nat}
    (hp : Entered (Place.node? nodes) p) (hn : Place.node? nodes p = some n)
    (hentered : n.isEntered = true) (hc : n.children[i]? = some c) :
    Entered (Place.node? nodes) (p ++ [.child i]) where
  byChildren := by
    rw [List.mem_append, not_or]
    exact ⟨hp.byChildren, by simp⟩
  leads := by
    have hne : p ≠ [] := by
      rintro rfl
      exact nomatch hn
    exact ⟨c, by rw [Place.node?_append hne, hn, Option.bind_some, Node.at?_child, hc]; simp⟩
  through q m hq hne hm := by
    rcases List.prefix_concat_iff.mp hq with rfl | hq
    · exact absurd rfl hne
    · by_cases hqp : q = p
      · obtain rfl : n = m := Option.some.inj (hn.symm.trans (hqp ▸ hm))
        exact hentered
      · exact hp.through q m hq hqp hm

/-- With an entered node that it goes on from, a walk visits the pear of that node. -/
theorem append_pear_mem_placesFrom {nodes : List Node} {p : Place} {n q : Node}
    (hp : p ∈ Node.placesFrom 0 nodes) (hchildren : Turn.pear ∉ p)
    (hn : Place.node? nodes p = some n) (hentered : n.isEntered = true) (hq : n.pear = some q) :
    p ++ [.pear] ∈ Node.placesFrom 0 nodes :=
  (mem_placesFrom_zero_iff nodes _).mpr
    (Or.inr ⟨p, n, rfl, entered_of_mem_placesFrom hp hchildren, hn, hentered, by rw [hq]; rfl⟩)

end MarkupTree
