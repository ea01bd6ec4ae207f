import MarkupTree.Conformance.Check
import MarkupTree.Walk.Preorder

/-!
# Walks and tokens

A walk goes by the kinds of nodes, by their children and their pears, and never looks at a token. So
when the tokens of a forest are replaced by others, the walk goes the same way and meets the nodes
with the new tokens at the old levels.

* `tokens_mapTokens` — the tokens of an attribute, replaced one by one
* `preorderAll_mapTokens` — the order of a forest with other tokens
* `visits_mapTokens`, `walkAll_mapTokens` — what a visitor sees of it
-/

namespace MarkupTree

/-! ## Attributes with other tokens -/

namespace Attribute

/-- An attribute with each of its tokens replaced. -/
def mapTokens (f : Token → Token) : Attribute → Attribute
  | html a => html
    { a with
      token := f a.token
      spacesBeforeName := f a.spacesBeforeName
      name := f a.name
      spacesBeforeEqual := a.spacesBeforeEqual.map f
      equal := a.equal.map f
      spacesAfterEqual := a.spacesAfterEqual.map f
      startQuote := a.startQuote.map f
      value := a.value.map f
      endQuote := a.endQuote.map f }
  | block a => block { a with token := f a.token }

variable (f : Token → Token) (a : Attribute)

@[simp] theorem token_mapTokens : (a.mapTokens f).token = f a.token := by
  cases a <;> rfl

theorem parts_mapTokens : (a.mapTokens f).parts = a.parts.map f := by
  cases a with
  | html a =>
    have hfields : (a.fields.map (Option.map f)).filterMap id = (a.fields.filterMap id).map f := by
      rw [List.filterMap_map, List.map_filterMap]
      rfl
    rw [parts, ← hfields]
    rfl
  | block a => rfl

/-- The tokens of an attribute stay in their order. -/
@[simp] theorem tokens_mapTokens : (a.mapTokens f).tokens = a.tokens.map f := by
  rw [tokens, token_mapTokens, parts_mapTokens, tokens, List.map_cons]

end Attribute

/-! ## Forests with other tokens -/

mutual

/-- A node with the tokens in its tree replaced: by `own` that of each node, of which is known whether
it is a ghost, and by `part` those of the attributes. -/
def Node.mapTokens (own : Bool → Token → Token) (part : Token → Token) : Node → Node
  | ⟨kind, token, name, isGhost, children, pear, attributes⟩ =>
    { kind, name, isGhost
      token := own isGhost token
      children := mapTokensAll own part children
      pear := mapTokensPear own part pear
      attributes := attributes.map (Attribute.mapTokens part) }

/-- A forest with its tokens replaced. -/
def Node.mapTokensAll (own : Bool → Token → Token) (part : Token → Token) : List Node → List Node
  | [] => []
  | n :: ns => n.mapTokens own part :: mapTokensAll own part ns

/-- A pear with the tokens in its tree replaced. -/
def Node.mapTokensPear (own : Bool → Token → Token) (part : Token → Token) :
    Option Node → Option Node
  | none => none
  | some n => some (n.mapTokens own part)

end

section

variable (own : Bool → Token → Token) (part : Token → Token)

theorem Node.mapTokensPear_eq_map (p : Option Node) :
    Node.mapTokensPear own part p = p.map (Node.mapTokens own part) := by
  cases p <;> rfl

variable (n : Node)

@[simp] theorem Node.kind_mapTokens : (n.mapTokens own part).kind = n.kind := by
  cases n; rw [Node.mapTokens]

@[simp] theorem Node.token_mapTokens :
    (n.mapTokens own part).token = own n.isGhost n.token := by
  cases n; rw [Node.mapTokens]

@[simp] theorem Node.name_mapTokens : (n.mapTokens own part).name = n.name := by
  cases n; rw [Node.mapTokens]

@[simp] theorem Node.isGhost_mapTokens : (n.mapTokens own part).isGhost = n.isGhost := by
  cases n; rw [Node.mapTokens]

@[simp] theorem Node.pear_mapTokens :
    (n.mapTokens own part).pear = n.pear.map (Node.mapTokens own part) := by
  cases n; rw [Node.mapTokens, Node.mapTokensPear_eq_map]

@[simp] theorem Node.attributes_mapTokens :
    (n.mapTokens own part).attributes = n.attributes.map (Attribute.mapTokens part) := by
  cases n; rw [Node.mapTokens]

/-! ## The walk -/

mutual

theorem preorder_mapTokens (config : WalkConfig) (depth : UInt64) : ∀ n : Node,
    (n.mapTokens own part).preorder config depth
      = (n.preorder config depth).map fun v => (v.1.mapTokens own part, v.2)
  | ⟨kind, token, name, isGhost, children, pear, attributes⟩ => by
    have hchildren := preorderAll_mapTokens config (depth + 1) children
    rw [Node.preorder, List.map_cons, Node.mapTokens, Node.preorder]
    congr 1
    -- whether the node is entered depends on its kind alone
    show (if Node.isEntered ⟨kind, token, name, isGhost, children, pear, attributes⟩ then _ else _)
      = _
    split
    · rw [List.map_append, hchildren, Node.mapTokensPear_eq_map]
      congr 1
      · split <;> rfl
      · cases pear <;> rfl
    · rfl

/-- A walk meets the nodes of a forest with other tokens in the old order. -/
theorem preorderAll_mapTokens (config : WalkConfig) (depth : UInt64) : ∀ ns : List Node,
    Node.preorderAll config depth (Node.mapTokensAll own part ns)
      = (Node.preorderAll config depth ns).map fun v => (v.1.mapTokens own part, v.2)
  | [] => rfl
  | n :: ns => by
    rw [Node.mapTokensAll, Node.preorderAll, Node.preorderAll, List.map_append,
      preorder_mapTokens config depth n, preorderAll_mapTokens config depth ns]

end

variable (nodes : List Node)

theorem visits_mapTokens (config : WalkConfig) :
    visits config (Node.mapTokensAll own part nodes)
      = (visits config nodes).map fun v => (v.1.mapTokens own part, v.2) := by
  rw [visits_eq_preorderAll, visits_eq_preorderAll, preorderAll_mapTokens]

theorem flatten_mapTokens :
    flatten (Node.mapTokensAll own part nodes) = (flatten nodes).map (Node.mapTokens own part) := by
  rw [flatten, flatten, visits_mapTokens, List.map_map, List.map_map]
  rfl

/-- A visitor that never stops may as well be given the old nodes and look at them with the new
tokens. -/
theorem walkAll_mapTokens {σ : Type} (config : WalkConfig) (visit : σ → Node → UInt64 → σ)
    (state : σ) :
    walkAll config visit (Node.mapTokensAll own part nodes) state
      = walkAll config (fun s n depth => visit s (n.mapTokens own part) depth) nodes state := by
  rw [walkAll_eq_foldl, walkAll_eq_foldl, preorderAll_mapTokens, List.foldl_map]

end

end MarkupTree
