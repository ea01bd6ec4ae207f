import MarkupTree.Dump
import MarkupTree.Proofs.Conformance.Obligation
import MarkupTree.Proofs.Walk.Tokens
import Mathlib.Data.List.Basic

/-!
# Identities are opaque

Nothing is read off an identity but whether it was seen before. So when the identities of a forest
are renamed, a walk and a dump do not notice, and a check ends the same, as long as different
identities keep different names. The identities that a run has seen stay the renamed ones of the run
on the forest as it was, obligation by obligation, up to the one at which both runs end.

* `Obligation.check_renamed`, `checkObligations_renamed` — one check, and a run of checks
* `checkNodes_renamedAll` — the check of a forest with other identities
* `renamedAll_alike` — checks, walks and dumps
-/

namespace MarkupTree

/-! ## Renaming -/

/-- A token with its identity renamed. -/
def Token.renamed (r : TokenId → TokenId) (t : Token) : Token := { t with id := r t.id }

/-- An attribute with the identities of its tokens renamed. -/
def Attribute.renamed (r : TokenId → TokenId) : Attribute → Attribute :=
  Attribute.mapTokens (Token.renamed r)

/-- A node with the identities in its tree renamed: its own, and those of its attributes, its
children and its pear. -/
def Node.renamed (r : TokenId → TokenId) : Node → Node :=
  Node.mapTokens (fun _ => Token.renamed r) (Token.renamed r)

/-- A forest with its identities renamed. -/
def Node.renamedAll (r : TokenId → TokenId) : List Node → List Node :=
  Node.mapTokensAll (fun _ => Token.renamed r) (Token.renamed r)

/-- A violation with the identity that it names renamed. -/
def Violation.renamed (r : TokenId → TokenId) : Violation → Violation
  | pearNotEndTag owner offset kind => .pearNotEndTag owner offset kind
  | duplicateToken id offset => .duplicateToken (r id) offset
  | offsetLength id start stop len => .offsetLength (r id) start stop len
  | rawMismatch id start stop raw expected => .rawMismatch (r id) start stop raw expected
  | position id edge offset actual expected => .position (r id) edge offset actual expected

/-- A failure with the identity in its violation renamed. -/
def Failure.renamed (r : TokenId → TokenId) : Failure Violation → Failure Violation
  | .fault f => .fault f
  | .error v => .error (v.renamed r)

/-- An obligation with its identities renamed. -/
def Obligation.renamed (r : TokenId → TokenId) : Obligation → Obligation
  | pear n => .pear (n.renamed r)
  | identity t => .identity (t.renamed r)
  | length t => .length (t.renamed r)
  | text t => .text (t.renamed r)
  | edge t e => .edge (t.renamed r) e

section

variable (r : TokenId → TokenId)

/-! ## Obligations -/

theorem Token.obligations_renamed (t : Token) :
    (t.renamed r).obligations = t.obligations.map (Obligation.renamed r) := rfl

theorem Node.obligations_renamed (n : Node) :
    (n.renamed r).obligations = n.obligations.map (Obligation.renamed r) := by
  have hattributes : ((n.renamed r).attributes.flatMap Attribute.tokens).flatMap Token.obligations
      = ((n.attributes.flatMap Attribute.tokens).flatMap Token.obligations).map
          (Obligation.renamed r) := by
    simp only [Node.renamed, Node.attributes_mapTokens, List.flatMap_map, List.map_flatMap,
      List.flatMap_assoc, Attribute.tokens_mapTokens, Token.obligations_renamed]
  have htoken : (n.renamed r).token = n.token.renamed r := Node.token_mapTokens ..
  have hghost : (n.renamed r).isGhost = n.isGhost := Node.isGhost_mapTokens ..
  rw [Node.obligations, Node.obligations, hattributes, htoken, hghost, List.map_cons,
    List.map_append]
  congr 2
  split <;> rfl

theorem Node.obligationsAll_renamedAll (nodes : List Node) :
    Node.obligationsAll (Node.renamedAll r nodes)
      = (Node.obligationsAll nodes).map (Obligation.renamed r) := by
  rw [Node.obligationsAll, Node.renamedAll, flatten_mapTokens, List.flatMap_map,
    Node.obligationsAll, List.map_flatMap]
  exact List.flatMap_congr fun n _ => n.obligations_renamed r

end

/-! ## Runs -/

section

variable {r : TokenId → TokenId} {rules : PositionRules} {source : List Char}

/-- A check that sees no identity, and reports the violation under its new name. -/
theorem Checked.unless_renamed (b : Bool) (v : Violation) (seen : List TokenId) :
    (do .unless b (v.renamed r); return seen.map r : Checked (List TokenId))
      = ((do .unless b v; return seen : Checked (List TokenId)).map (List.map r)).mapError
          (Failure.renamed r) := by
  cases b <;> rfl

/-- Under new names the check of one thing ends the same, with the new names of those seen. -/
theorem Obligation.check_renamed (hr : Function.Injective r) (seen : List TokenId)
    (o : Obligation) : (o.renamed r).check rules source (seen.map r)
      = ((o.check rules source seen).map (List.map r)).mapError (Failure.renamed r) := by
  cases o with
  | pear n =>
    simp only [renamed, check, Node.checkPear, Node.renamed, Node.pear_mapTokens,
      Node.name_mapTokens, Node.token_mapTokens]
    cases n.pear with
    | none => rfl
    | some p =>
      simp only [Option.map_some, Node.kind_mapTokens]
      exact Checked.unless_renamed _ (.pearNotEndTag n.name n.token.startOffset p.kind) seen
  | identity t =>
    have hseen : r t.id ∈ seen.map r ↔ t.id ∈ seen := List.mem_map_of_injective hr
    simp only [renamed, check, Token.fresh, Token.renamed, hseen]
    split <;> rfl
  | length t =>
    exact Checked.unless_renamed t.wellFormed
      (.offsetLength t.id t.startOffset t.endOffset (Text.unitLen t.raw)) seen
  | text t =>
    simp only [renamed, check, Token.renamed]
    cases slice source t.startOffset t.endOffset with
    | error fault => rfl
    | ok expected =>
      exact Checked.unless_renamed (expected = t.raw)
        (.rawMismatch t.id t.startOffset t.endOffset t.raw expected) seen
  | edge t e =>
    have hoffset : (t.renamed r).offsetAt e = t.offsetAt e := by cases e <;> rfl
    have hpos : (t.renamed r).posAt e = t.posAt e := by cases e <;> rfl
    rw [renamed, check, check, hoffset, hpos]
    exact Checked.unless_renamed (t.posAt e = rules.position source (t.offsetAt e))
      (.position t.id e (t.offsetAt e) (t.posAt e) (rules.position source (t.offsetAt e))) seen

/-- Along renamed obligations a run has seen the renamed identities, and so it ends the same. -/
theorem checkObligations_renamed (hr : Function.Injective r) :
    ∀ (os : List Obligation) (seen : List TokenId),
      checkObligations rules source (seen.map r) (os.map (Obligation.renamed r))
        = ((checkObligations rules source seen os).map (List.map r)).mapError (Failure.renamed r)
  | [], _ => rfl
  | o :: os, seen => by
    rw [List.map_cons, checkObligations, checkObligations, Obligation.check_renamed hr]
    cases o.check rules source seen with
    | error _ => rfl
    | ok ids => exact checkObligations_renamed hr os ids

/-- The check of a forest with other identities ends as that of the forest does. -/
theorem checkNodes_renamedAll (hr : Function.Injective r) (nodes : List Node) :
    checkNodes rules source (Node.renamedAll r nodes)
      = (checkNodes rules source nodes).mapError (Failure.renamed r) := by
  have hrun : checkObligations rules source []
        ((Node.obligationsAll nodes).map (Obligation.renamed r))
      = ((checkObligations rules source [] (Node.obligationsAll nodes)).map (List.map r)).mapError
          (Failure.renamed r) :=
    checkObligations_renamed hr (Node.obligationsAll nodes) []
  rw [checkNodes_eq, checkNodes_eq, Node.obligationsAll_renamedAll, hrun]
  cases checkObligations rules source [] (Node.obligationsAll nodes) <;> rfl

end

/-! ## Dumps -/

namespace Dump

variable (r : TokenId → TokenId)

theorem node_renamed (n : Node) : node (n.renamed r) = node n := by
  have htoken : (n.renamed r).token = n.token.renamed r := Node.token_mapTokens ..
  have hghost : (n.renamed r).isGhost = n.isGhost := Node.isGhost_mapTokens ..
  have hname : (n.renamed r).name = n.name := Node.name_mapTokens ..
  have hkind : (n.renamed r).kind = n.kind := Node.kind_mapTokens ..
  rw [node, Node.raw, htoken, hghost, hname, hkind]
  rfl

/-- The line of a field says nothing of an identity. -/
theorem zipWith_fieldLine_renamed (labels : List (List Char)) (os : List (Option Token)) :
    List.zipWith fieldLine labels (os.map (Option.map (Token.renamed r)))
      = List.zipWith fieldLine labels os := by
  rw [List.zipWith_map_right]
  congr 1
  funext label o
  cases o <;> rfl

theorem record_renamed (a : Attribute) : record (a.renamed r) = record a := by
  cases a with
  | html a =>
    have hfields := zipWith_fieldLine_renamed r fieldLabels a.fields
    have hlines : detailLines ((Attribute.html a).renamed r) = detailLines (.html a) := by
      rw [detailLines, htmlLines, ← hfields]
      rfl
    rw [record, record, hlines]
    rfl
  | block a => rfl

end Dump

/-! ## All of them -/

/-- Let the identities of a forest be renamed. If no two of them get one name, a check under all rules
and against all sources ends the same, but for the name in the violation that it reports. Under any
new names a walk makes the old visits, at the old levels and of the renamed nodes, whatever the
visitor does, and the dumps of the forest and of its attributes stay the same. -/
theorem renamedAll_alike (r : TokenId → TokenId) (nodes : List Node)
    (attributes : List Attribute) :
    (Function.Injective r → ∀ rules source, checkNodes rules source (Node.renamedAll r nodes)
        = (checkNodes rules source nodes).mapError (Failure.renamed r)) ∧
      (∀ config, visits config (Node.renamedAll r nodes)
        = (visits config nodes).map fun v => (v.1.renamed r, v.2)) ∧
      (∀ (σ : Type) (config : WalkConfig) (visit : σ → Node → UInt64 → σ) (state : σ),
        walkAll config visit (Node.renamedAll r nodes) state
          = walkAll config (fun s n depth => visit s (n.renamed r) depth) nodes state) ∧
      Dump.tree (Node.renamedAll r nodes) = Dump.tree nodes ∧
      Dump.attributeList (attributes.map (Attribute.renamed r))
        = Dump.attributeList attributes := by
  refine ⟨fun hr rules source => checkNodes_renamedAll hr nodes,
    fun config => visits_mapTokens _ _ nodes config,
    fun σ config visit state => walkAll_mapTokens _ _ nodes config visit state, ?_, ?_⟩
  · rw [Dump.tree, Dump.nodeList, Node.renamedAll, flatten_mapTokens, List.map_map]
    exact List.map_congr_left fun n _ => Dump.node_renamed r n
  · rw [Dump.attributeList, List.map_map]
    exact List.map_congr_left fun a _ => Dump.record_renamed r a

/-- An end tag has the identity of its start tag, and so it has under the new names. -/
theorem renamedAll_alike_duplicate :
    let r : TokenId → TokenId := fun id => ⟨id.value + 5⟩
    let close := Node.parent .endTag ⟨⟨1⟩, ['<', '/', '>'], 2, 5, 1, 1, 3, 6⟩ [] []
    let nodes := [{ Node.parent .startTag ⟨⟨1⟩, ['<', '>'], 0, 2, 1, 1, 1, 3⟩ [] [] with
      pear := some close }]
    let source := ['<', '>', '<', '/', '>']
    Function.Injective r ∧
      checkNodes .baseline source nodes = .error (.error (.duplicateToken ⟨1⟩ 2)) ∧
      checkNodes .baseline source (Node.renamedAll r nodes)
        = .error (.error (.duplicateToken ⟨6⟩ 2)) := by
  intro r close nodes source
  have hr : Function.Injective r := by
    rintro ⟨a⟩ ⟨b⟩ h
    simpa [r] using h
  have hcheck : checkNodes .baseline source nodes = .error (.error (.duplicateToken ⟨1⟩ 2)) := by
    rw [checkNodes_eq_preorderAll]
    decide
  refine ⟨hr, hcheck, ?_⟩
  rw [(renamedAll_alike r nodes []).1 hr, hcheck]
  rfl

end MarkupTree
