import MarkupTree.Conformance.Check
import MarkupTree.Walk.Preorder

/-!
# The obligations of a tree

A check asks one thing after the other: that a pear is an end tag, that an identity is new, that a
token has the length, the text and the ends that its source gives it. Here these questions stand in
one list, in the order in which they are asked, and a check runs along that list until one fails.

* `checkNodes_eq` — a check is a run along the obligations of the forest
* `checkObligations_eq_ok_iff` — a run passes when all obligations are met and no identity is seen
  twice
-/

namespace MarkupTree

/-! ## Obligations -/

/-- The offset of an end of a token. -/
def Token.offsetAt (t : Token) : Edge → UInt32
  | .start => t.startOffset
  | .stop => t.endOffset

/-- The position of an end of a token. -/
def Token.posAt (t : Token) : Edge → Position
  | .start => t.startPos
  | .stop => t.endPos

/-- One thing that a check asks. -/
inductive Obligation where
  /-- The pear of a node, if it has one, is an end tag. -/
  | pear (owner : Node)
  /-- The identity of a token is a new one. -/
  | identity (t : Token)
  /-- The offsets of a token span its text. -/
  | length (t : Token)
  /-- The text of a token is that of the source between its offsets. -/
  | text (t : Token)
  /-- An end of a token is at the position of its offset. -/
  | edge (t : Token) (edge : Edge)

/-- What is asked of a token that stands in the source. -/
def Token.obligations (t : Token) : List Obligation :=
  [.identity t, .length t, .text t, .edge t .start, .edge t .stop]

/-- What is asked of a node and its attributes. -/
def Node.obligations (n : Node) : List Obligation :=
  .pear n :: ((if n.isGhost then [.identity n.token] else n.token.obligations)
    ++ (n.attributes.flatMap Attribute.tokens).flatMap Token.obligations)

/-- What is asked of a forest, in the order of the walk. -/
def Node.obligationsAll (nodes : List Node) : List Obligation :=
  (flatten nodes).flatMap Node.obligations

/-! ## Running along obligations -/

namespace Obligation

/-- Asks one thing, with the identities seen so far. -/
def check (rules : PositionRules) (source : List Char) (seen : List TokenId) :
    Obligation → Checked (List TokenId)
  | pear n => do n.checkPear; return seen
  | identity t => t.fresh seen
  | length t => do
    .unless t.wellFormed (.offsetLength t.id t.startOffset t.endOffset (Text.unitLen t.raw))
    return seen
  | text t => do
    let expected ← .ofFault (slice source t.startOffset t.endOffset)
    .unless (expected = t.raw) (.rawMismatch t.id t.startOffset t.endOffset t.raw expected)
    return seen
  | edge t e => do t.checkEdge rules source e (t.offsetAt e) (t.posAt e); return seen

/-- What an obligation asks apart from the identities seen before. -/
def Met (rules : PositionRules) (source : List Char) : Obligation → Prop
  | pear n => ∀ p, n.pear = some p → p.kind = .endTag
  | identity _ => True
  | length t => t.startOffset ≤ t.endOffset ∧ t.endOffset - t.startOffset = Text.unitLen t.raw
  | text t => slice source t.startOffset t.endOffset = .ok t.raw
  | edge t e => t.posAt e = rules.position source (t.offsetAt e)

/-- The identity that has to be new. -/
def id? : Obligation → Option TokenId
  | identity t => some t.id
  | pear _ | length _ | text _ | edge .. => none

end Obligation

/-- Asks the things of a list in order, until one is not met. -/
def checkObligations (rules : PositionRules) (source : List Char) :
    List TokenId → List Obligation → Checked (List TokenId)
  | seen, [] => .ok seen
  | seen, o :: os => do checkObligations rules source (← o.check rules source seen) os

section

variable {rules : PositionRules} {source : List Char}

theorem checkObligations_append : ∀ (seen : List TokenId) (os os' : List Obligation),
    checkObligations rules source seen (os ++ os')
      = (checkObligations rules source seen os).bind (checkObligations rules source · os')
  | _, [], _ => rfl
  | seen, o :: os, os' => by
    rw [List.cons_append, checkObligations, checkObligations]
    cases o.check rules source seen with
    | error _ => rfl
    | ok ids => exact checkObligations_append ids os os'

/-! ## A check is a run -/

theorem Token.check_eq (seen : List TokenId) (t : Token) :
    t.check rules source seen = checkObligations rules source seen t.obligations := by
  simp only [Token.check, Token.obligations, checkObligations, Obligation.check, bind_assoc,
    pure_bind, Token.offsetAt, Token.posAt]
  rfl

theorem checkTokens_eq : ∀ (seen : List TokenId) (ts : List Token),
    checkTokens rules source seen ts
      = checkObligations rules source seen (ts.flatMap Token.obligations)
  | _, [] => rfl
  | seen, t :: ts => by
    rw [checkTokens, Token.check_eq, List.flatMap_cons, checkObligations_append]
    cases checkObligations rules source seen t.obligations with
    | error _ => rfl
    | ok ids => exact checkTokens_eq ids ts

theorem Node.checkToken_eq (seen : List TokenId) (n : Node) :
    n.checkToken rules source seen
      = checkObligations rules source seen
          (if n.isGhost then [.identity n.token] else n.token.obligations) := by
  unfold Node.checkToken
  split
  · rw [checkObligations, Obligation.check]
    cases n.token.fresh seen <;> rfl
  · exact Token.check_eq seen n.token

theorem Node.check_eq (seen : List TokenId) (n : Node) :
    n.check rules source seen = checkObligations rules source seen n.obligations := by
  simp only [Node.check, Node.obligations, checkObligations, Obligation.check, bind_assoc,
    pure_bind, checkObligations_append, Node.checkToken_eq, checkTokens_eq]
  rfl

theorem result_visitInOrder : ∀ (order : List (Node × UInt64)) (seen : List TokenId),
    (visitInOrder (CheckState.visit rules source) order (.seen seen)).1.result
      = (checkObligations rules source seen (order.flatMap (·.1.obligations))).map fun _ => ()
  | [], _ => rfl
  | (n, depth) :: rest, seen => by
    rw [visitInOrder, CheckState.visit, Node.check_eq, List.flatMap_cons, checkObligations_append]
    cases checkObligations rules source seen n.obligations with
    | error _ => rfl
    | ok ids => exact result_visitInOrder rest ids

/-- A check of a forest asks its obligations in order. -/
theorem checkNodes_eq (nodes : List Node) :
    checkNodes rules source nodes
      = (checkObligations rules source [] (Node.obligationsAll nodes)).map fun _ => () := by
  rw [checkNodes, checkWalk, walk_state, result_visitInOrder, Node.obligationsAll, flatten,
    visits_eq_preorderAll, List.flatMap_map]

/-- The obligations of a forest can be read off the recursive order. -/
theorem checkNodes_eq_preorderAll (nodes : List Node) :
    checkNodes rules source nodes
      = (checkObligations rules source []
          ((Node.preorderAll {} 0 nodes).flatMap (·.1.obligations))).map fun _ => () := by
  rw [checkNodes_eq, Node.obligationsAll, flatten, visits_eq_preorderAll, List.flatMap_map]

/-! ## Which runs pass -/

theorem Checked.return_eq_ok_iff {c : Checked Unit} {seen ids : List TokenId} :
    (do c; return seen : Checked (List TokenId)) = .ok ids ↔ c = .ok () ∧ ids = seen := by
  cases c with
  | error _ => simp [bind, Except.bind]
  | ok _ => simp [bind, Except.bind, pure, Except.pure, eq_comm]

theorem Checked.bind_eq_ok_iff {α β : Type} {c : Checked α} {f : α → Checked β} {b : β} :
    c >>= f = .ok b ↔ ∃ a, c = .ok a ∧ f a = .ok b := by
  cases c with
  | error _ => simp [bind, Except.bind]
  | ok _ => simp [bind, Except.bind]

/-- One thing asked passes when it is met and its identity, if it has one, is new; the identity is
then among those seen. -/
theorem Obligation.check_eq_ok_iff {seen ids : List TokenId} {o : Obligation} :
    o.check rules source seen = .ok ids ↔
      o.Met rules source ∧ (∀ id ∈ o.id?, id ∉ seen) ∧ ids = o.id?.toList ++ seen := by
  cases o with
  | pear n =>
    rw [Obligation.check, Checked.return_eq_ok_iff, Node.checkPear_eq_ok_iff]
    simp [Obligation.Met, Obligation.id?]
  | identity t => simp [Obligation.check, Obligation.Met, Obligation.id?, Token.fresh_eq_ok_iff]
  | length t =>
    rw [Obligation.check, Checked.return_eq_ok_iff, Checked.unless_eq_ok_iff]
    simp [Obligation.Met, Obligation.id?, Token.wellFormed]
  | text t =>
    rw [Obligation.check, Obligation.Met]
    cases slice source t.startOffset t.endOffset with
    | error _ => simp [Checked.ofFault, bind, Except.bind]
    | ok expected =>
      show (do .unless (expected = t.raw) _; return seen : Checked (List TokenId)) = _ ↔ _
      rw [Checked.return_eq_ok_iff, Checked.unless_eq_ok_iff]
      simp [Obligation.id?]
  | edge t e =>
    rw [Obligation.check, Checked.return_eq_ok_iff, Token.checkEdge, Checked.unless_eq_ok_iff]
    simp [Obligation.Met, Obligation.id?]

/-- A run passes when every obligation is met, and the identities are new and no two the same. -/
theorem checkObligations_eq_ok_iff : ∀ {os : List Obligation} {seen ids : List TokenId},
    checkObligations rules source seen os = .ok ids ↔
      (∀ o ∈ os, o.Met rules source) ∧ (os.filterMap Obligation.id?).Nodup ∧
        (∀ id ∈ os.filterMap Obligation.id?, id ∉ seen) ∧
          ids = (os.filterMap Obligation.id?).reverse ++ seen
  | [], seen, ids => by simp [checkObligations, eq_comm]
  | o :: os, seen, ids => by
    simp only [checkObligations, Checked.bind_eq_ok_iff, Obligation.check_eq_ok_iff,
      @checkObligations_eq_ok_iff os, List.forall_mem_cons]
    cases hid : o.id? with
    | none =>
      rw [List.filterMap_cons_none hid]
      simp [and_assoc]
    | some id =>
      rw [List.filterMap_cons_some hid]
      simp only [List.nodup_cons, List.forall_mem_cons, List.reverse_cons]
      constructor
      · -- what is new behind this identity differs from it and from those before
        rintro ⟨s, ⟨hmet, hnew, rfl⟩, hall, hnodup, hfresh, rfl⟩
        refine ⟨⟨hmet, hall⟩, ⟨?_, hnodup⟩, ⟨hnew id rfl, ?_⟩, by simp⟩
        · exact fun hmem => hfresh id hmem (by simp)
        · exact fun i hi hmem => hfresh i hi (List.mem_append_right _ hmem)
      · rintro ⟨⟨hmet, hall⟩, ⟨hnot, hnodup⟩, ⟨hnew, hfresh⟩, rfl⟩
        refine ⟨_, ⟨hmet, by simpa using hnew, rfl⟩, hall, hnodup, ?_, by simp⟩
        intro i hi hmem
        rcases List.mem_append.mp hmem with he | hseen
        · rw [Option.toList_some, List.mem_singleton] at he
          exact hnot (he ▸ hi)
        · exact hfresh i hi hseen

end

end MarkupTree
