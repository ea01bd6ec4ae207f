import MarkupTree.Proofs.Conformance.Acceptance
import MarkupTree.Proofs.Conformance.Report
import MarkupTree.Proofs.Position.Strict

/-!
# A check always answers

A check computes with whatever offsets the tokens of a tree have: reversed ones, ones past the end
of the source, ones inside a surrogate pair. Here it is run with arithmetic that may stop, so that a
run can end in three ways: with `none` it stops, and otherwise it accepts the tree or reports a
violation.

A run stops exactly where the check meets a fault (`Checked.answer?`), and it meets none: the only
fault of plain markup is a reversed span, and the length of a token is compared before its text is
looked up.

* `checkToken_eq`, `checkNode_eq` — a strict check is the check, and stops at a fault
* `checkNodes_answers` — and for no forest does it stop
-/

namespace MarkupTree

/-- The answer of a check; a check that meets a fault has none. -/
def Checked.answer? {α : Type} : Checked α → ExceptT Violation Option α
  | .ok a => return a
  | .error (.error v) => throw v
  | .error (.fault _) => ExceptT.mk none

theorem Checked.answer?_bind {α β : Type} (c : Checked α) (f : α → Checked β) :
    (c >>= f).answer? = c.answer? >>= fun a => (f a).answer? := by
  cases c with
  | ok _ => rfl
  | error failure => cases failure <;> rfl

theorem Checked.answer?_pure {α : Type} (a : α) : (pure a : Checked α).answer? = pure a := rfl

theorem Checked.answer?_unless_bind {α : Type} (b : Bool) (v : Violation)
    (next : Unit → ExceptT Violation Option α) :
    (Checked.unless b v).answer? >>= next = if b then next () else throw v := by
  cases b <;> rfl

theorem Checked.answer?_ofFault {α : Type} (c : Except Fault α) :
    (Checked.ofFault c).answer? = liftM c.toOption := by
  cases c <;> rfl

namespace Strict

open Text

/-! ## Tokens -/

/-- The identities seen, with that of a token, which must be a new one. -/
def fresh (seen : List TokenId) (t : Token) : ExceptT Violation Option (List TokenId) :=
  if t.id ∈ seen then throw (.duplicateToken t.id t.startOffset) else return t.id :: seen

/-- An end of a token must be at the position of its offset. -/
def checkEdge (source : List Char) (t : Token) (edge : Edge) (offset : UInt32)
    (actual : Position) : ExceptT Violation Option Unit := do
  let expected ← position source offset
  if actual = expected then return else throw (.position t.id edge offset actual expected)

/-- A token must be new and agree with the source: its length, its text, and then its ends. -/
def checkToken (source : List Char) (seen : List TokenId) (t : Token) :
    ExceptT Violation Option (List TokenId) := do
  let ids ← fresh seen t
  if ← wellFormed t then
    let expected ← slice source t.startOffset t.endOffset
    if expected = t.raw then
      checkEdge source t .start t.startOffset t.startPos
      checkEdge source t .stop t.endOffset t.endPos
      return ids
    else throw (.rawMismatch t.id t.startOffset t.endOffset t.raw expected)
  else throw (.offsetLength t.id t.startOffset t.endOffset (← unitLen t.raw))

/-- Checks the tokens of a list in order. -/
def checkTokens (source : List Char) :
    List TokenId → List Token → ExceptT Violation Option (List TokenId)
  | seen, [] => return seen
  | seen, t :: ts => do checkTokens source (← checkToken source seen t) ts

section

variable {source : List Char} (hlen : unitCount source < UInt32.size - 1)

theorem fresh_eq (seen : List TokenId) (t : Token) : fresh seen t = (t.fresh seen).answer? := by
  unfold fresh Token.fresh
  split <;> rfl

include hlen

theorem checkEdge_eq (t : Token) (edge : Edge) (offset : UInt32) (actual : Position) :
    checkEdge source t edge offset actual
      = (t.checkEdge .baseline source edge offset actual).answer? := by
  rw [checkEdge, position_eq hlen, Token.checkEdge, Checked.unless]
  by_cases h : actual = PositionRules.baseline.position source offset
  · rw [if_pos (decide_eq_true h)]
    exact if_pos h
  · rw [if_neg (by simpa using h)]
    exact if_neg h

/-- A strict check of a token stops exactly where the check meets a fault. -/
theorem checkToken_eq {t : Token} (hraw : unitCount t.raw < UInt32.size) (seen : List TokenId) :
    checkToken source seen t = (t.check .baseline source seen).answer? := by
  have hfits : unitCount source < UInt32.size := by omega
  simp only [checkToken, Token.check, fresh_eq, wellFormed_eq hraw, unitLen_eq hraw,
    slice_eq hfits, checkEdge_eq hlen, Checked.answer?_bind, Checked.answer?_pure,
    Checked.answer?_unless_bind, Checked.answer?_ofFault, liftM_some, pure_bind,
    decide_eq_true_eq]

theorem checkTokens_eq : ∀ {ts : List Token}, (∀ t ∈ ts, unitCount t.raw < UInt32.size) →
    ∀ seen, checkTokens source seen ts
      = (MarkupTree.checkTokens .baseline source seen ts).answer?
  | [], _, _ => rfl
  | t :: ts, hraws, seen => by
    rw [List.forall_mem_cons] at hraws
    rw [checkTokens, MarkupTree.checkTokens, Checked.answer?_bind, checkToken_eq hlen hraws.1]
    exact bind_congr fun ids => checkTokens_eq hraws.2 ids

end

/-! ## Nodes -/

/-- The pear of a node must be an end tag. -/
def checkPear (n : Node) : ExceptT Violation Option Unit :=
  match n.pear with
  | none => return
  | some pear =>
    if pear.kind.isEndTag then return
    else throw (.pearNotEndTag n.name n.token.startOffset pear.kind)

/-- The token of a ghost must be new, that of any other node must agree with the source. -/
def checkOwnToken (source : List Char) (seen : List TokenId) (n : Node) :
    ExceptT Violation Option (List TokenId) :=
  if n.isGhost then fresh seen n.token else checkToken source seen n.token

/-- Checks a node: its pear, its token, and then its attributes in order. -/
def checkNode (source : List Char) (seen : List TokenId) (n : Node) :
    ExceptT Violation Option (List TokenId) := do
  checkPear n
  let seen ← checkOwnToken source seen n
  checkTokens source seen (n.attributes.flatMap Attribute.tokens)

/-- The visitor of a check: it goes on as long as the check passes. -/
def visit (source : List Char) (state : ExceptT Violation Option (List TokenId)) (n : Node)
    (_depth : UInt64) : ExceptT Violation Option (List TokenId) × Reply :=
  let next := do checkNode source (← state) n
  match next.run with
  | some (.ok _) => (next, .proceed)
  | some (.error _) | none => (next, .halt)

/-- Checks a forest against a source. -/
def checkNodes (source : List Char) (nodes : List Node) : ExceptT Violation Option Unit := do
  let _ ← (walk {} (visit source) nodes (return [])).state

section

variable {source : List Char} (hlen : unitCount source < UInt32.size - 1)

theorem checkPear_eq (n : Node) : checkPear n = n.checkPear.answer? := by
  unfold checkPear Node.checkPear
  cases n.pear with
  | none => rfl
  | some pear =>
    show _ = (Checked.unless pear.kind.isEndTag _).answer?
    cases h : pear.kind.isEndTag with
    | true => exact if_pos h
    | false => exact if_neg (by simp [h])

include hlen

theorem checkNode_eq {n : Node} (hraws : ∀ t ∈ n.spans, unitCount t.raw < UInt32.size)
    (seen : List TokenId) :
    checkNode source seen n = (n.check .baseline source seen).answer? := by
  rw [Node.spans, List.forall_mem_append] at hraws
  have htoken : checkOwnToken source seen n
      = (n.checkToken .baseline source seen).answer? := by
    unfold checkOwnToken Node.checkToken
    by_cases hghost : n.isGhost = true
    · rw [if_pos hghost, if_pos hghost, fresh_eq]
    · rw [if_neg hghost] at hraws
      rw [if_neg hghost, if_neg hghost, checkToken_eq hlen (hraws.1 n.token (by simp))]
  simp only [checkNode, Node.check, Checked.answer?_bind, checkPear_eq, htoken,
    checkTokens_eq hlen hraws.2]

/-- Along the nodes of a walk, the strict visitor does what the visitor does. -/
theorem visitInOrder_eq : ∀ {order : List (Node × UInt64)},
    (∀ v ∈ order, ∀ t ∈ v.1.spans, unitCount t.raw < UInt32.size) → ∀ seen,
      (do let _ ← (visitInOrder (visit source) order (return seen)).1)
        = (visitInOrder (CheckState.visit .baseline source) order (.seen seen)).1.result.answer?
  | [], _, _ => rfl
  | (n, depth) :: order, hraws, seen => by
    rw [List.forall_mem_cons] at hraws
    have hnode := checkNode_eq hlen hraws.1 seen
    rw [visitInOrder, visitInOrder, visit, CheckState.visit, pure_bind, hnode]
    -- the two visitors stop together, and go on with the same identities
    cases n.check .baseline source seen with
    | ok ids => exact visitInOrder_eq hraws.2 ids
    | error failure => cases failure <;> rfl

end

end Strict

/-! ## Forests -/

/-- Whatever offsets, positions and texts the tokens of a forest have, a strict check of it does not
stop: at no reversed slice, no negative difference, no sum that needs more than 32 bits and no index
inside a character or past the end. It accepts the forest or reports a violation, as the check
does. -/
theorem checkNodes_answers {source : List Char} (hlen : Text.unitCount source < UInt32.size - 1)
    {nodes : List Node}
    (hraws : ∀ n ∈ flatten nodes, ∀ t ∈ n.spans, Text.unitCount t.raw < UInt32.size) :
    ∃ answer : Except Violation Unit, (Strict.checkNodes source nodes).run = some answer ∧
      checkNodes .baseline source nodes = answer.mapError Failure.error := by
  have hstrict : Strict.checkNodes source nodes
      = (checkNodes .baseline source nodes).answer? := by
    rw [flatten_eq_preorderAll, List.forall_mem_map] at hraws
    rw [Strict.checkNodes, checkNodes, checkWalk, walk_state, walk_state]
    exact Strict.visitInOrder_eq hlen hraws []
  by_cases hok : checkNodes .baseline source nodes = .ok ()
  · exact ⟨.ok (), by rw [hstrict, hok]; rfl, hok⟩
  · obtain ⟨v, hv⟩ := exists_violation_of_ne hok
    exact ⟨.error v, by rw [hstrict, hv]; rfl, hv⟩

/-- A text without characters inside an emoji, and one that runs backwards from past the end. -/
theorem checkNodes_answers_reversed :
    let source := ['a', '😀', 'b']
    let inside : Token := ⟨⟨1⟩, [], 2, 2, 1, 1, 4, 4⟩
    let reversed : Token := ⟨⟨2⟩, ['b'], 9, 5, 0, 7, 0, 7⟩
    let nodes := [Node.leaf .text inside, Node.leaf .text reversed]
    Text.unitCount source < UInt32.size - 1 ∧
      (∀ n ∈ flatten nodes, ∀ t ∈ n.spans, Text.unitCount t.raw < UInt32.size) ∧
      (Strict.checkNodes source nodes).run = some (.error (.offsetLength ⟨2⟩ 9 5 1)) ∧
      checkNodes .baseline source nodes = .error (.error (.offsetLength ⟨2⟩ 9 5 1)) := by
  intro source inside reversed nodes
  have hlen : Text.unitCount source < UInt32.size - 1 := by decide
  have hraws : ∀ n ∈ flatten nodes, ∀ t ∈ n.spans, Text.unitCount t.raw < UInt32.size := by
    rw [flatten_eq_preorderAll]
    decide
  have hnodes : checkNodes .baseline source nodes
      = .error (.error (.offsetLength ⟨2⟩ 9 5 1)) := by
    rw [checkNodes_eq_preorderAll]
    decide
  obtain ⟨answer, hrun, hcheck⟩ := checkNodes_answers hlen hraws
  rw [hnodes] at hcheck
  cases answer with
  | ok => cases hcheck
  | error v =>
    cases hcheck
    exact ⟨hlen, hraws, hrun, hnodes⟩

end MarkupTree
