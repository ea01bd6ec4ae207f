import MarkupTree.Node

/-!
# Walking a forest

A walk visits a node, then its children one level deeper, then its pear at the node's own level.
Leaves and end tags are not entered, and neither is a pear. The visitor may stop the walk, and the
depth may be bounded: then children below the bound are left out, and pears are not.

The nodes still to visit stand on a list of steps, so the nesting of a tree is bounded by memory
alone. The walk ends because what is left to visit gets less with every step (`Step.weight`).
Depths are 64-bit words, and below the last of them they start again from zero.

* `weight_steps_lt` — what follows a node weighs less than the node
-/

namespace MarkupTree

/-! ## Options, answers and events -/

/-- Options of a walk. -/
structure WalkConfig where
  /-- The deepest level whose nodes are visited, if there is one. -/
  maxDepth : Option UInt64 := none
  /-- The level of the nodes the walk starts with. -/
  startDepth : UInt64 := 0
deriving DecidableEq, Repr

/-- Whether children may be visited at a level. -/
def WalkConfig.admits (config : WalkConfig) (depth : UInt64) : Bool :=
  match config.maxDepth with
  | none => true
  | some bound => depth ≤ bound

/-- What a visitor answers. -/
inductive Reply where
  | proceed
  | halt
deriving DecidableEq, Repr

/-- What a walk reports beside the visits. -/
inductive WalkEvent where
  /-- The walk goes on to the children of a node. -/
  | descending (name : List Char) (children : Nat)
  /-- The children of a node at `depth` are left out. -/
  | depthReached (name : List Char) (depth : UInt64)
deriving DecidableEq, Repr

/-! ## Steps -/

/-- A visit still to make: of a node and what follows it, or of a pear alone. -/
inductive Step where
  | enter (node : Node) (depth : UInt64)
  | pear (node : Node) (depth : UInt64)

/-- The steps that follow the visit of a node. -/
def Node.steps (config : WalkConfig) (n : Node) (depth : UInt64) : List Step :=
  if n.isEntered then
    (if config.admits (depth + 1) then n.children.map (Step.enter · (depth + 1)) else [])
      ++ n.pear.toList.map (Step.pear · depth)
  else []

/-- What is reported behind the visit of a node. -/
def Node.event? (config : WalkConfig) (n : Node) (depth : UInt64) : Option WalkEvent :=
  if n.isEntered && !n.children.isEmpty then
    some (if config.admits (depth + 1) then .descending n.name n.children.length
      else .depthReached n.name depth)
  else none

/-! ## Weight -/

mutual

/-- The greatest number of visits that a walk makes in the tree of a node. -/
def Node.weight : Node → Nat
  | ⟨_, _, _, _, children, pear, _⟩ => 1 + weightAll children + pear.toList.length

/-- The greatest number of visits that a walk makes in a forest. -/
def Node.weightAll : List Node → Nat
  | [] => 0
  | n :: ns => n.weight + weightAll ns

end

/-- The greatest number of visits that a step leads to. -/
def Step.weight : Step → Nat
  | enter n _ => n.weight
  | pear _ _ => 1

/-- The greatest number of visits that a list of steps leads to. -/
def Step.weightAll : List Step → Nat
  | [] => 0
  | s :: ss => s.weight + weightAll ss

theorem weightAll_append : ∀ s t : List Step,
    Step.weightAll (s ++ t) = Step.weightAll s + Step.weightAll t
  | [], _ => (Nat.zero_add _).symm
  | s :: ss, t => by
    rw [List.cons_append, Step.weightAll, weightAll_append ss t, Step.weightAll, Nat.add_assoc]

theorem weightAll_map_enter (d : UInt64) : ∀ ns : List Node,
    Step.weightAll (ns.map (Step.enter · d)) = Node.weightAll ns
  | [] => rfl
  | n :: ns => by
    rw [List.map_cons, Step.weightAll, weightAll_map_enter d ns, Node.weightAll]
    rfl

theorem weightAll_map_pear (d : UInt64) (o : Option Node) :
    Step.weightAll (o.toList.map (Step.pear · d)) = o.toList.length := by
  cases o <;> rfl

theorem weight_steps_lt (config : WalkConfig) (n : Node) (depth : UInt64) :
    Step.weightAll (n.steps config depth) < n.weight := by
  obtain ⟨kind, token, name, isGhost, children, pear, attributes⟩ := n
  unfold Node.steps
  split
  · rw [weightAll_append, weightAll_map_pear, Node.weight]
    split
    · rw [weightAll_map_enter]; dsimp only; omega
    · rw [Step.weightAll]; dsimp only; omega
  · rw [Step.weightAll, Node.weight]; omega

/-! ## The walk -/

/-- A walk that has ended: the visitor's state, the events in order, and the last answer. -/
structure Walked (σ : Type) where
  state : σ
  events : List WalkEvent
  reply : Reply

/-- Makes the visits of a list of steps in order, until the visitor stops. The events so far are
given latest first. -/
def walkSteps {σ : Type} (config : WalkConfig) (visit : σ → Node → UInt64 → σ × Reply) :
    List Step → σ → List WalkEvent → Walked σ
  | [], state, events => ⟨state, events.reverse, .proceed⟩
  | .pear n depth :: rest, state, events =>
    match visit state n depth with
    | (state, .halt) => ⟨state, events.reverse, .halt⟩
    | (state, .proceed) => walkSteps config visit rest state events
  | .enter n depth :: rest, state, events =>
    match visit state n depth with
    | (state, .halt) => ⟨state, events.reverse, .halt⟩
    | (state, .proceed) =>
      walkSteps config visit (n.steps config depth ++ rest) state
        ((n.event? config depth).toList ++ events)
termination_by steps => Step.weightAll steps
decreasing_by
  · rw [Step.weightAll, Step.weight]; omega
  · have := weight_steps_lt config n depth
    rw [weightAll_append, Step.weightAll, Step.weight]; omega

/-- Walks a forest with a visitor that may stop the walk. -/
def walk {σ : Type} (config : WalkConfig) (visit : σ → Node → UInt64 → σ × Reply)
    (nodes : List Node) (state : σ) : Walked σ :=
  walkSteps config visit (nodes.map (Step.enter · config.startDepth)) state []

/-- Walks a forest with a visitor that never stops. -/
def walkAll {σ : Type} (config : WalkConfig) (visit : σ → Node → UInt64 → σ) (nodes : List Node)
    (state : σ) : σ :=
  (walk config (fun s n d => (visit s n d, .proceed)) nodes state).state

/-- The visits of a walk in order, each with its depth. -/
def visits (config : WalkConfig) (nodes : List Node) : List (Node × UInt64) :=
  (walkAll config (fun seen n depth => (n, depth) :: seen) nodes []).reverse

/-- The visits of a walk whose first level is `depth`. -/
def visitsFrom (depth : UInt64) (nodes : List Node) : List (Node × UInt64) :=
  visits { startDepth := depth } nodes

/-- The nodes of a forest in the order of a walk, pears included. -/
def flatten (nodes : List Node) : List Node := (visits {} nodes).map Prod.fst

end MarkupTree
