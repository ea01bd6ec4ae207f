import MarkupTree.Walk

/-!
# The order of a walk

The visits of a walk as a recursion on the tree: a node, the forest below it one level deeper, and
then its pear at the node's own level. A walk makes these visits in order until the visitor stops.

* `walk_eq_visitInOrder` — a walk is a run of its visitor along that order
* `walkAll_eq_foldl`, `visits_eq_preorderAll` — a visitor that never stops sees all of it
-/

namespace MarkupTree

/-! ## The order -/

mutual

/-- The visits of the tree of a node at a level. -/
def Node.preorder (config : WalkConfig) (depth : UInt64) : Node → List (Node × UInt64)
  | n@⟨_, _, _, _, children, _, _⟩ =>
    (n, depth) ::
      (if n.isEntered then
        (if config.admits (depth + 1) then preorderAll config (depth + 1) children else [])
          ++ n.pear.toList.map fun pear => (pear, depth)
      else [])

/-- The visits of a forest at a level. -/
def Node.preorderAll (config : WalkConfig) (depth : UInt64) : List Node → List (Node × UInt64)
  | [] => []
  | n :: ns => n.preorder config depth ++ preorderAll config depth ns

end

/-- The visits that a step leads to. -/
def Step.preorder (config : WalkConfig) : Step → List (Node × UInt64)
  | enter n depth => n.preorder config depth
  | pear n depth => [(n, depth)]

theorem preorderAll_eq_flatMap (config : WalkConfig) (depth : UInt64) (ns : List Node) :
    Node.preorderAll config depth ns = ns.flatMap (Node.preorder config depth) := by
  induction ns with
  | nil => rfl
  | cons n ns ih => rw [Node.preorderAll, ih, List.flatMap_cons]

theorem preorder_map_enter (config : WalkConfig) (depth : UInt64) (ns : List Node) :
    (ns.map (Step.enter · depth)).flatMap (Step.preorder config)
      = Node.preorderAll config depth ns := by
  rw [preorderAll_eq_flatMap, List.flatMap_map]
  rfl

/-- A node comes first, and then what the steps behind it lead to. -/
theorem preorder_eq_cons (config : WalkConfig) (n : Node) (depth : UInt64) :
    n.preorder config depth
      = (n, depth) :: (n.steps config depth).flatMap (Step.preorder config) := by
  obtain ⟨kind, token, name, isGhost, children, pear, attributes⟩ := n
  rw [Node.preorder, Node.steps]
  split
  · rw [List.flatMap_append]
    congr 2
    · split
      · rw [preorder_map_enter]
      · rfl
    · cases pear <;> rfl
  · rfl

/-! ## Visiting in order -/

/-- The state and the last answer of a visitor that makes the visits of a list. -/
def visitInOrder {σ : Type} (visit : σ → Node → UInt64 → σ × Reply) :
    List (Node × UInt64) → σ → σ × Reply
  | [], state => (state, .proceed)
  | (n, depth) :: rest, state =>
    match visit state n depth with
    | (state, .halt) => (state, .halt)
    | (state, .proceed) => visitInOrder visit rest state

theorem walkSteps_eq {σ : Type} (config : WalkConfig) (visit : σ → Node → UInt64 → σ × Reply)
    (steps : List Step) (state : σ) (events : List WalkEvent) :
    ((walkSteps config visit steps state events).state,
        (walkSteps config visit steps state events).reply)
      = visitInOrder visit (steps.flatMap (Step.preorder config)) state := by
  fun_induction walkSteps config visit steps state events with
  | case1 state events => rfl
  | case2 state events n depth rest state' hvisit =>
    rw [List.flatMap_cons, Step.preorder, List.singleton_append, visitInOrder, hvisit]
  | case3 state events n depth rest state' hvisit ih =>
    rw [List.flatMap_cons, Step.preorder, List.singleton_append, visitInOrder, hvisit]
    exact ih
  | case4 state events n depth rest state' hvisit =>
    rw [List.flatMap_cons, Step.preorder, preorder_eq_cons, List.cons_append, visitInOrder, hvisit]
  | case5 state events n depth rest state' hvisit ih =>
    rw [List.flatMap_cons, Step.preorder, preorder_eq_cons, List.cons_append, visitInOrder, hvisit,
      ← List.flatMap_append]
    exact ih

/-- A walk runs its visitor along the order until it stops. -/
theorem walk_eq_visitInOrder {σ : Type} (config : WalkConfig)
    (visit : σ → Node → UInt64 → σ × Reply) (nodes : List Node) (state : σ) :
    ((walk config visit nodes state).state, (walk config visit nodes state).reply)
      = visitInOrder visit (Node.preorderAll config config.startDepth nodes) state := by
  rw [walk, walkSteps_eq, preorder_map_enter]

theorem walk_state {σ : Type} (config : WalkConfig) (visit : σ → Node → UInt64 → σ × Reply)
    (nodes : List Node) (state : σ) :
    (walk config visit nodes state).state
      = (visitInOrder visit (Node.preorderAll config config.startDepth nodes) state).1 :=
  congrArg Prod.fst (walk_eq_visitInOrder config visit nodes state)

theorem visitInOrder_proceed {σ : Type} (visit : σ → Node → UInt64 → σ) :
    ∀ (order : List (Node × UInt64)) (state : σ),
      visitInOrder (fun s n d => (visit s n d, .proceed)) order state
        = (order.foldl (fun s v => visit s v.1 v.2) state, .proceed)
  | [], _ => rfl
  | (n, depth) :: rest, state => by
    rw [visitInOrder]
    exact visitInOrder_proceed visit rest _

/-- A visitor that never stops is folded over the order. -/
theorem walkAll_eq_foldl {σ : Type} (config : WalkConfig) (visit : σ → Node → UInt64 → σ)
    (nodes : List Node) (state : σ) :
    walkAll config visit nodes state
      = (Node.preorderAll config config.startDepth nodes).foldl (fun s v => visit s v.1 v.2)
        state := by
  rw [walkAll, walk_state, visitInOrder_proceed]

/-- A visitor that keeps every visit has the whole order. -/
theorem visits_eq_preorderAll (config : WalkConfig) (nodes : List Node) :
    visits config nodes = Node.preorderAll config config.startDepth nodes := by
  rw [visits, walkAll_eq_foldl, List.foldl_flip_cons_eq_append', List.append_nil,
    List.reverse_reverse]

/-- The nodes of a forest as a walk without a bound meets them. -/
theorem flatten_eq_preorderAll (nodes : List Node) :
    flatten nodes = (Node.preorderAll {} 0 nodes).map Prod.fst := by
  rw [flatten, visits_eq_preorderAll]

end MarkupTree
