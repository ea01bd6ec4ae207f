import MarkupTree.Conformance.Violation
import MarkupTree.Position.Rules
import MarkupTree.Walk

/-!
# Checking a tree against its source

A tree agrees with a source if every pear is an end tag, no identity occurs twice, and every token
of a node or an attribute has the text, the offsets and the positions that the source gives it. A
ghost has no text of its own, so of its token only the identity counts.

The check walks the forest and stops at the first violation.

* `fresh_eq_ok_iff` — an identity is taken exactly when it was not seen before
* `checkPear_eq_ok_iff` — a node passes the pear check exactly when its pear, if any, is an end tag
-/

namespace MarkupTree

/-! ## Tokens -/

/-- How one check can end: with what was asked for, a violation, or a fault. -/
abbrev Checked (α : Type) := Except (Failure Violation) α

/-- A computation that can only fault, as a check. -/
def Checked.ofFault {α : Type} : Except Fault α → Checked α
  | .ok a => .ok a
  | .error fault => .error (.fault fault)

/-- A check that reports `v` unless `b` holds. -/
def Checked.unless (b : Bool) (v : Violation) : Checked Unit :=
  if b then .ok () else .error (.error v)

/-- The identities seen, with that of a token, which must be a new one. -/
def Token.fresh (seen : List TokenId) (t : Token) : Checked (List TokenId) :=
  if t.id ∈ seen then .error (.error (.duplicateToken t.id t.startOffset)) else .ok (t.id :: seen)

theorem Token.fresh_eq_ok_iff {seen ids : List TokenId} {t : Token} :
    t.fresh seen = .ok ids ↔ t.id ∉ seen ∧ ids = t.id :: seen := by
  unfold Token.fresh
  split
  · next h => simp [h]
  · next h => simp [h, eq_comm]

/-- An end of a token must be at the position of its offset. -/
def Token.checkEdge (rules : PositionRules) (source : List Char) (t : Token) (edge : Edge)
    (offset : UInt32) (actual : Position) : Checked Unit :=
  .unless (actual = rules.position source offset)
    (.position t.id edge offset actual (rules.position source offset))

/-- A token must be new and agree with the source: its length, its text, and then its ends. -/
def Token.check (rules : PositionRules) (source : List Char) (seen : List TokenId) (t : Token) :
    Checked (List TokenId) := do
  let ids ← t.fresh seen
  .unless t.wellFormed (.offsetLength t.id t.startOffset t.endOffset (Text.unitLen t.raw))
  let expected ← .ofFault (slice source t.startOffset t.endOffset)
  .unless (expected = t.raw) (.rawMismatch t.id t.startOffset t.endOffset t.raw expected)
  t.checkEdge rules source .start t.startOffset t.startPos
  t.checkEdge rules source .stop t.endOffset t.endPos
  return ids

/-! ## Attributes and nodes -/

/-- Checks the tokens of a list in order. -/
def checkTokens (rules : PositionRules) (source : List Char) :
    List TokenId → List Token → Checked (List TokenId)
  | seen, [] => .ok seen
  | seen, t :: ts => do checkTokens rules source (← t.check rules source seen) ts

/-- The tokens of an attribute: its whole span and then its parts. -/
def Attribute.tokens (a : Attribute) : List Token := a.token :: a.parts

/-- The pear of a node must be an end tag. -/
def Node.checkPear (n : Node) : Checked Unit :=
  match n.pear with
  | none => .ok ()
  | some pear =>
    .unless pear.kind.isEndTag (.pearNotEndTag n.name n.token.startOffset pear.kind)

theorem Checked.unless_eq_ok_iff {b : Bool} {v : Violation} :
    Checked.unless b v = .ok () ↔ b = true := by
  cases b <;> simp [Checked.unless]

theorem Node.checkPear_eq_ok_iff {n : Node} :
    n.checkPear = .ok () ↔ ∀ p, n.pear = some p → p.kind = .endTag := by
  unfold Node.checkPear
  split
  · next h => simp [h]
  · next p h => simp [h, Checked.unless_eq_ok_iff, NodeKind.isEndTag]

/-- The token of a ghost must be new, that of any other node must agree with the source. -/
def Node.checkToken (rules : PositionRules) (source : List Char) (seen : List TokenId) (n : Node) :
    Checked (List TokenId) :=
  if n.isGhost then n.token.fresh seen else n.token.check rules source seen

/-- Checks a node: its pear, its token, and then its attributes in order. -/
def Node.check (rules : PositionRules) (source : List Char) (seen : List TokenId) (n : Node) :
    Checked (List TokenId) := do
  n.checkPear
  let seen ← n.checkToken rules source seen
  checkTokens rules source seen (n.attributes.flatMap Attribute.tokens)

/-! ## Forests -/

/-- What a check reports beside its result. -/
inductive CheckEvent where
  | walked (event : WalkEvent)
  /-- The check of the node named `name` found a violation. -/
  | failed (violation : Violation) (name : List Char)
deriving DecidableEq, Repr

/-- A check in progress: the identities seen so far, or how it failed and at which node. -/
inductive CheckState where
  | seen (ids : List TokenId)
  | failed (failure : Failure Violation) (name : List Char)

/-- The visitor of a check. -/
def CheckState.visit (rules : PositionRules) (source : List Char) (state : CheckState) (n : Node)
    (_depth : UInt64) : CheckState × Reply :=
  match state with
  | failed failure name => (failed failure name, .halt)
  | seen ids =>
    match n.check rules source ids with
    | .ok ids => (seen ids, .proceed)
    | .error failure => (failed failure n.name, .halt)

/-- The result of a check. -/
def CheckState.result : CheckState → Checked Unit
  | seen _ => .ok ()
  | failed failure _ => .error failure

/-- The events that the end of a check adds. -/
def CheckState.events : CheckState → List CheckEvent
  | failed (.error v) name => [.failed v name]
  | failed (.fault _) _ | seen _ => []

/-- The walk of a check. -/
def checkWalk (rules : PositionRules) (source : List Char) (nodes : List Node) :
    Walked CheckState :=
  walk {} (CheckState.visit rules source) nodes (.seen [])

/-- Checks a forest against a source; the result is the first violation in the order of the
walk. -/
def checkNodes (rules : PositionRules) (source : List Char) (nodes : List Node) : Checked Unit :=
  (checkWalk rules source nodes).state.result

/-- The events of a check in order. -/
def checkEvents (rules : PositionRules) (source : List Char) (nodes : List Node) :
    List CheckEvent :=
  let walked := checkWalk rules source nodes
  walked.events.map CheckEvent.walked ++ walked.state.events

/-- Checks a document against a source. -/
def Document.check (source : List Char) (d : Document) : Checked Unit :=
  checkNodes .baseline source d.nodes

end MarkupTree
