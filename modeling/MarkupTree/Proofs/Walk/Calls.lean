import MarkupTree.Walk.Preorder

/-!
# The calls of a walk

A walk gives its visitor one node after the other and ends with the first answer that stops it. The
visitor cannot see the steps that are still to make, so what a walk does is said by its calls: which
nodes it gives, at which depth, and in which state of the visitor.

* `length_preorderAll_le` — the order has no more visits than the weight of the forest
* `exists_follows` — a visitor that makes the visits of a row in order follows that row
* `walk_follows_preorder` — a walk follows the order of its forest, with finitely many calls
-/

namespace MarkupTree

/-! ## Calls -/

/-- A call of a visitor: the node and the depth that it is given, and its answer. -/
structure Call where
  node : Node
  depth : UInt64
  reply : Reply

/-- What a call visits. -/
def Call.visited (c : Call) : Node × UInt64 := (c.node, c.depth)

section

variable {σ : Type} (visit : σ → Node → UInt64 → σ × Reply)

/-- The visitor makes calls one after the other, each in the state that the one before has left. -/
inductive Answers : σ → List Call → σ → Prop
  | nil (state : σ) : Answers state [] state
  | cons {state next final : σ} {c : Call} {calls : List Call}
      (answer : visit state c.node c.depth = (next, c.reply)) (rest : Answers next calls final) :
      Answers state (c :: calls) final

/-- The visitor that also keeps its calls, latest first. -/
def recording (kept : σ × List Call) (n : Node) (depth : UInt64) : (σ × List Call) × Reply :=
  let answer := visit kept.1 n depth
  ((answer.1, ⟨n, depth, answer.2⟩ :: kept.2), answer.2)

/-- The calls take the visitor along a row of visits until it stops: from `state` to `final`, with
`reply` in the end. -/
structure Follows (order : List (Node × UInt64)) (state : σ) (calls : List Call) (final : σ)
    (reply : Reply) : Prop where
  answers : Answers visit state calls final
  /-- The calls are the first visits of the row, none left out. -/
  inOrder : calls.map Call.visited <+: order
  /-- No call is made behind one that stops. -/
  goesOn : ∀ c ∈ calls.dropLast, c.reply = .proceed
  halts : reply = .halt ↔ ∃ c ∈ calls, c.reply = .halt
  /-- Without a stop all visits of the row are made. -/
  complete : reply = .proceed → calls.map Call.visited = order

variable {visit} {n : Node} {depth : UInt64} {rest : List (Node × UInt64)} {state next final : σ}

/-! ## Following a row -/

theorem Follows.nil (state : σ) : Follows visit [] state [] state .proceed where
  answers := .nil state
  inOrder := List.prefix_rfl
  goesOn := fun _ h => nomatch h
  halts := by simp
  complete := fun _ => rfl

/-- A call that stops the visitor is the last one. -/
theorem Follows.halt (h : visit state n depth = (next, .halt)) :
    Follows visit ((n, depth) :: rest) state [⟨n, depth, .halt⟩] next .halt where
  answers := .cons h (.nil next)
  inOrder := ⟨rest, rfl⟩
  goesOn := fun _ h => nomatch h
  halts := by simp
  complete := fun h => nomatch h

/-- Behind a call that does not stop the visitor it follows the rest of the row. -/
theorem Follows.proceed (h : visit state n depth = (next, .proceed)) {calls : List Call}
    {reply : Reply} (hrest : Follows visit rest next calls final reply) :
    Follows visit ((n, depth) :: rest) state (⟨n, depth, .proceed⟩ :: calls) final reply where
  answers := .cons h hrest.answers
  inOrder := List.cons_prefix_cons.mpr ⟨rfl, hrest.inOrder⟩
  goesOn := by
    intro c hc
    cases calls with
    | nil => cases hc
    | cons c' calls =>
      rcases List.mem_cons.mp hc with rfl | hc
      · rfl
      · exact hrest.goesOn c hc
  halts := by simp [hrest.halts]
  complete := by
    intro hreply
    rw [List.map_cons, hrest.complete hreply]
    rfl

variable (visit)

/-- A visitor that makes the visits of a row in order follows that row, with the calls that it
keeps when it records them. -/
theorem exists_follows : ∀ (order : List (Node × UInt64)) (state : σ), ∃ calls,
    Follows visit order state calls (visitInOrder visit order state).1
        (visitInOrder visit order state).2
      ∧ ∀ kept, visitInOrder (recording visit) order (state, kept)
          = (((visitInOrder visit order state).1, calls.reverse ++ kept),
              (visitInOrder visit order state).2)
  | [], state => ⟨[], .nil state, fun _ => rfl⟩
  | (n, depth) :: rest, state => by
    simp only [visitInOrder, recording]
    rcases hvisit : visit state n depth with ⟨next, reply⟩
    cases reply with
    | halt => exact ⟨[⟨n, depth, .halt⟩], .halt hvisit, fun _ => rfl⟩
    | proceed =>
      obtain ⟨calls, hfollows, hkept⟩ := exists_follows rest next
      refine ⟨⟨n, depth, .proceed⟩ :: calls, .proceed hvisit hfollows, fun kept => ?_⟩
      simp only [hkept, List.reverse_cons, List.append_assoc, List.singleton_append]

end

/-! ## How many visits there are -/

mutual

theorem length_preorder_le (config : WalkConfig) (depth : UInt64) :
    ∀ n : Node, (n.preorder config depth).length ≤ n.weight
  | ⟨kind, token, name, isGhost, children, pear, attributes⟩ => by
    have hchildren := length_preorderAll_le config (depth + 1) children
    rw [Node.preorder, Node.weight, List.length_cons]
    split
    · rw [List.length_append, List.length_map]
      dsimp only
      split
      · omega
      · rw [List.length_nil]; omega
    · rw [List.length_nil]; omega

/-- A node is visited once at most, and so is a pear. -/
theorem length_preorderAll_le (config : WalkConfig) (depth : UInt64) :
    ∀ ns : List Node, (Node.preorderAll config depth ns).length ≤ Node.weightAll ns
  | [] => Nat.le_refl 0
  | n :: ns => by
    have hfirst := length_preorder_le config depth n
    have hrest := length_preorderAll_le config depth ns
    rw [Node.preorderAll, Node.weightAll, List.length_append]
    omega

end

/-! ## The calls of a walk -/

/-- Whatever the visitor, a walk calls it on the visits of the recursive order, one after the other
until the first answer that stops it, and ends with the state and the answer that these calls lead
to. The calls are those that the visitor itself can record, and there are no more of them than the
forest has nodes and pears. -/
theorem walk_follows_preorder {σ : Type} (config : WalkConfig)
    (visit : σ → Node → UInt64 → σ × Reply) (nodes : List Node) (state : σ) :
    ∃ calls,
      Follows visit (Node.preorderAll config config.startDepth nodes) state calls
          (walk config visit nodes state).state (walk config visit nodes state).reply
        ∧ (walk config (recording visit) nodes (state, [])).state
            = ((walk config visit nodes state).state, calls.reverse)
        ∧ calls.length ≤ Node.weightAll nodes := by
  obtain ⟨calls, hfollows, hkept⟩ :=
    exists_follows visit (Node.preorderAll config config.startDepth nodes) state
  have hwalk := walk_eq_visitInOrder config visit nodes state
  refine ⟨calls, ?_, ?_, ?_⟩
  · rw [← hwalk] at hfollows
    exact hfollows
  · rw [walk_state, hkept, ← hwalk, List.append_nil]
  · have hprefix := hfollows.inOrder.length_le
    rw [List.length_map] at hprefix
    exact Nat.le_trans hprefix (length_preorderAll_le config config.startDepth nodes)

end MarkupTree
