import MarkupTree.Dump
import MarkupTree.Proofs.Conformance.Report
import Mathlib.Data.List.Forall2

/-!
# Where ghosts stand

A ghost stands for nothing in the source, so the place of its token says nothing: neither a dump nor
a check reads it. All the rest of a ghost counts: its identity, its text in dumps, its attributes,
its children and its pear. Here two forests that differ in the places of ghosts are walked and
checked side by side. Both runs ask alike things one after the other and keep the same identities,
so they end alike. Only the offset that a violation gives of a ghost can be another one.

* `preorderAll_sameUpToGhosts` — a walk meets nodes that look alike
* `Obligation.Alike.check`, `checkObligations_alike` — one check, and a run of checks
* `sameUpToGhosts_unnoticed` — dumps and checks
-/

namespace MarkupTree

/-! ## Forests that differ in the places of ghosts -/

/-- Two nodes are the same in themselves, but for the place of the token when they are ghosts. -/
structure Node.OwnAlike (n m : Node) : Prop where
  kind : n.kind = m.kind
  name : n.name = m.name
  isGhost : n.isGhost = m.isGhost
  id : n.token.id = m.token.id
  raw : n.token.raw = m.token.raw
  token : n.isGhost = false → n.token = m.token
  attributes : n.attributes = m.attributes

/-- Two nodes are the same, but for the places of ghosts in their trees. -/
inductive Node.SameUpToGhosts : Node → Node → Prop
  | intro {n m : Node} (own : n.OwnAlike m)
      (children : List.Forall₂ Node.SameUpToGhosts n.children m.children)
      (pear : Option.Rel Node.SameUpToGhosts n.pear m.pear) : SameUpToGhosts n m

theorem Node.SameUpToGhosts.own {n m : Node} : n.SameUpToGhosts m → n.OwnAlike m
  | intro own _ _ => own

/-- Two nodes are the same in what a visitor looks at: themselves and the kind of their pear. -/
structure Node.LooksLike (n m : Node) : Prop extends n.OwnAlike m where
  pearKind : n.pear.map Node.kind = m.pear.map Node.kind

theorem map_kind_sameUpToGhosts {p q : Option Node} (h : Option.Rel Node.SameUpToGhosts p q) :
    p.map Node.kind = q.map Node.kind := by
  cases h with
  | some h => exact congrArg some h.own.kind
  | none => rfl

theorem Node.SameUpToGhosts.looksLike {n m : Node} : n.SameUpToGhosts m → n.LooksLike m
  | intro own _ pear => ⟨own, map_kind_sameUpToGhosts pear⟩

/-! ## The walk -/

/-- Two visits at one depth of nodes that look alike. -/
def VisitsAlike (v w : Node × UInt64) : Prop := v.1.LooksLike w.1 ∧ v.2 = w.2

mutual

theorem preorder_sameUpToGhosts (config : WalkConfig) (depth : UInt64) : ∀ n m : Node,
    n.SameUpToGhosts m →
      List.Forall₂ VisitsAlike (n.preorder config depth) (m.preorder config depth)
  | ⟨kind, token, name, isGhost, children, pear, attributes⟩,
    ⟨kind', token', name', isGhost', children', pear', attributes'⟩, h => by
    have hlooks := h.looksLike
    obtain ⟨hown, hchildren, hpear⟩ := h
    have hbelow := preorderAll_sameUpToGhosts config (depth + 1) children children' hchildren
    have hentered : Node.isEntered ⟨kind, token, name, isGhost, children, pear, attributes⟩
        = Node.isEntered ⟨kind', token', name', isGhost', children', pear', attributes'⟩ := by
      rw [Node.isEntered, Node.isEntered, hown.kind]
    rw [Node.preorder, Node.preorder, hentered]
    refine .cons ⟨hlooks, rfl⟩ ?_
    split
    · refine List.rel_append ?_ ?_
      · split
        · exact hbelow
        · exact .nil
      · cases hpear with
        | some hp => exact .cons ⟨hp.looksLike, rfl⟩ .nil
        | none => exact .nil
    · exact .nil

/-- A walk meets nodes that look alike, at the same depths. -/
theorem preorderAll_sameUpToGhosts (config : WalkConfig) (depth : UInt64) : ∀ ns ms : List Node,
    List.Forall₂ Node.SameUpToGhosts ns ms →
      List.Forall₂ VisitsAlike (Node.preorderAll config depth ns) (Node.preorderAll config depth ms)
  | [], _, h => by
    rw [List.forall₂_nil_left_iff.mp h]
    exact .nil
  | n :: ns, _, h => by
    obtain ⟨m, ms, hfirst, hrest, rfl⟩ := List.forall₂_cons_left_iff.mp h
    rw [Node.preorderAll, Node.preorderAll]
    exact List.rel_append (preorder_sameUpToGhosts config depth n m hfirst)
      (preorderAll_sameUpToGhosts config depth ns ms hrest)

end

theorem flatten_sameUpToGhosts {nodes others : List Node}
    (h : List.Forall₂ Node.SameUpToGhosts nodes others) :
    List.Forall₂ Node.LooksLike (flatten nodes) (flatten others) := by
  rw [flatten_eq_preorderAll, flatten_eq_preorderAll]
  refine List.rel_map ?_ (preorderAll_sameUpToGhosts {} 0 nodes others h)
  exact fun _ _ hvisits => hvisits.1

/-! ## Dumps -/

namespace Dump

theorem node_eq_of_ownAlike {n m : Node} (h : n.OwnAlike m) : node n = node m := by
  rw [node, node, Node.raw, Node.raw, ← h.isGhost, h.name, h.raw, h.kind]
  cases hghost : n.isGhost with
  | true => rw [if_pos rfl, if_pos rfl]
  | false => rw [h.token hghost]

/-- Lines of nodes that are alike in themselves are the same. -/
theorem nodeList_eq_of_ownAlike {ns ms : List Node} (h : List.Forall₂ Node.OwnAlike ns ms) :
    nodeList ns = nodeList ms := by
  rw [nodeList, nodeList, ← List.forall₂_eq_eq_eq]
  exact List.rel_map (fun _ _ hown => node_eq_of_ownAlike hown) h

end Dump

/-! ## Obligations -/

/-- Two violations are the same, but for the offset where an identity or the owner of a pear is at
fault. -/
inductive Violation.Alike : Violation → Violation → Prop
  | same (v : Violation) : Alike v v
  | duplicateToken (id : TokenId) (offset offset' : UInt32) :
    Alike (.duplicateToken id offset) (.duplicateToken id offset')
  | pearNotEndTag (owner : List Char) (offset offset' : UInt32) (kind : NodeKind) :
    Alike (.pearNotEndTag owner offset kind) (.pearNotEndTag owner offset' kind)

/-- Two checks end with the same, or report violations that are alike. -/
inductive Checked.Alike {α : Type} : Checked α → Checked α → Prop
  | same (c : Checked α) : Alike c c
  | report {v w : Violation} (h : v.Alike w) : Alike (.error (.error v)) (.error (.error w))

/-- Two obligations ask the same, of the pear of two nodes or of the identity of two tokens. -/
inductive Obligation.Alike : Obligation → Obligation → Prop
  | same (o : Obligation) : Alike o o
  | pear {n m : Node} (h : n.LooksLike m) : Alike (.pear n) (.pear m)
  | identity {t u : Token} (h : t.id = u.id) : Alike (.identity t) (.identity u)

theorem forall₂_obligation_alike_refl (os : List Obligation) :
    List.Forall₂ Obligation.Alike os os :=
  List.forall₂_same.mpr fun o _ => .same o

theorem Node.LooksLike.obligations {n m : Node} (h : n.LooksLike m) :
    List.Forall₂ Obligation.Alike n.obligations m.obligations := by
  rw [Node.obligations, Node.obligations, ← h.isGhost, h.attributes]
  refine .cons (.pear h) (List.rel_append ?_ (forall₂_obligation_alike_refl _))
  cases hghost : n.isGhost with
  | true => exact .cons (.identity h.id) .nil
  | false =>
    rw [h.token hghost]
    exact forall₂_obligation_alike_refl _

section

variable {rules : PositionRules} {source : List Char}

/-- A check that sees no identity ends alike when its violations are alike. -/
theorem Checked.unless_alike (b : Bool) {v w : Violation} (h : v.Alike w) (seen : List TokenId) :
    Checked.Alike (do .unless b v; return seen) (do .unless b w; return seen) := by
  cases b with
  | true => exact .same (.ok seen)
  | false => exact .report h

theorem Checked.Alike.bind {α β : Type} {c c' : Checked α} {f f' : α → Checked β}
    (h : c.Alike c') (hf : ∀ a, (f a).Alike (f' a)) : (c >>= f).Alike (c' >>= f') := by
  cases h with
  | same =>
    cases c with
    | ok a => exact hf a
    | error failure => exact .same (.error failure)
  | report h => exact .report h

/-- The checks of obligations that are alike end alike. -/
theorem Obligation.Alike.check {o o' : Obligation} (h : o.Alike o') (seen : List TokenId) :
    Checked.Alike (o.check rules source seen) (o'.check rules source seen) := by
  cases h with
  | same => exact .same _
  | @pear n m h =>
    have hkind := h.pearKind
    rw [Obligation.check, Obligation.check, Node.checkPear, Node.checkPear]
    cases hn : n.pear with
    | none =>
      rw [hn, Option.map_none, eq_comm, Option.map_eq_none_iff] at hkind
      rw [hkind]
      exact .same _
    | some p =>
      rw [hn, Option.map_some, eq_comm, Option.map_eq_some_iff] at hkind
      obtain ⟨q, hm, hq⟩ := hkind
      rw [hm, ← h.name]
      dsimp only
      rw [hq]
      exact Checked.unless_alike _ (.pearNotEndTag ..) seen
  | @identity t u h =>
    rw [Obligation.check, Obligation.check, Token.fresh, Token.fresh, ← h]
    split
    · exact .report (.duplicateToken ..)
    · exact .same _

/-- Along obligations that are alike two runs see the same identities, and so they end alike. -/
theorem checkObligations_alike {os os' : List Obligation}
    (h : List.Forall₂ Obligation.Alike os os') : ∀ seen : List TokenId,
      Checked.Alike (checkObligations rules source seen os)
        (checkObligations rules source seen os') := by
  induction h with
  | nil => exact fun seen => .same (.ok seen)
  | cons hfirst _ ih =>
    intro seen
    rw [checkObligations, checkObligations]
    exact (hfirst.check seen).bind ih

end

/-! ## Dumps and checks -/

/-- Let two forests be the same but for the places of ghosts. Then they have the same dumps, and a
check under any rules and against any source accepts both, or it reports the same violation of both,
but for the offset that it gives where an identity or the owner of a pear is at fault. -/
theorem sameUpToGhosts_unnoticed {nodes others : List Node}
    (h : List.Forall₂ Node.SameUpToGhosts nodes others) :
    Dump.tree nodes = Dump.tree others ∧ Dump.nodeList nodes = Dump.nodeList others ∧
      ∀ rules source,
        (checkNodes rules source nodes = .ok () ∧ checkNodes rules source others = .ok ()) ∨
          ∃ v w, checkNodes rules source nodes = .error (.error v) ∧
            checkNodes rules source others = .error (.error w) ∧ v.Alike w := by
  have hflatten := flatten_sameUpToGhosts h
  refine ⟨Dump.nodeList_eq_of_ownAlike (hflatten.imp fun _ _ hlooks => hlooks.toOwnAlike),
    Dump.nodeList_eq_of_ownAlike (h.imp fun _ _ hsame => hsame.own), fun rules source => ?_⟩
  have hobligations : List.Forall₂ Obligation.Alike (Node.obligationsAll nodes)
      (Node.obligationsAll others) :=
    List.rel_flatMap hflatten fun _ _ hlooks => hlooks.obligations
  have hrun : (checkNodes rules source nodes).Alike (checkNodes rules source others) := by
    rw [checkNodes_eq, checkNodes_eq]
    exact (checkObligations_alike hobligations []).bind fun _ => .same (.ok ())
  have hviolation : checkNodes rules source nodes ≠ .ok () →
      ∃ v, checkNodes rules source nodes = .error (.error v) := exists_violation_of_ne
  generalize checkNodes rules source nodes = c at hrun hviolation ⊢
  generalize checkNodes rules source others = c' at hrun ⊢
  cases hrun with
  | report halike => exact Or.inr ⟨_, _, rfl, rfl, halike⟩
  | same =>
    by_cases hok : c = .ok ()
    · exact Or.inl ⟨hok, hok⟩
    · obtain ⟨v, hv⟩ := hviolation hok
      exact Or.inr ⟨v, v, hv, hv, .same v⟩

/-- A ghost around a text, with a ghost for its end tag that has the same identity. Both stand
elsewhere in the second forest, and so the violation does. -/
theorem sameUpToGhosts_unnoticed_duplicate :
    let close (offset : UInt32) :=
      { Node.parent .endTag ⟨⟨1⟩, [], offset, 0, 5, 5, 5, 5⟩ ['b'] [] with isGhost := true }
    let element (offset line : UInt32) :=
      { Node.ghost .omittedTag ⟨⟨1⟩, [], 9, 4, line, 7, 7, 7⟩ ['b']
        [Node.leaf .text ⟨⟨2⟩, ['a'], 0, 1, 1, 1, 1, 2⟩] with pear := some (close offset) }
    let nodes := [element 3 7]
    let others := [element 6 8]
    List.Forall₂ Node.SameUpToGhosts nodes others ∧
      checkNodes .baseline ['a'] nodes = .error (.error (.duplicateToken ⟨1⟩ 3)) ∧
      checkNodes .baseline ['a'] others = .error (.error (.duplicateToken ⟨1⟩ 6)) ∧
      Dump.tree nodes = Dump.tree others ∧
      Violation.Alike (.duplicateToken ⟨1⟩ 3) (.duplicateToken ⟨1⟩ 6) := by
  intro close element nodes others
  have hclose : (close 3).SameUpToGhosts (close 6) :=
    .intro ⟨rfl, rfl, rfl, rfl, rfl, nofun, rfl⟩ .nil .none
  have htext : (Node.leaf .text ⟨⟨2⟩, ['a'], 0, 1, 1, 1, 1, 2⟩).SameUpToGhosts
      (Node.leaf .text ⟨⟨2⟩, ['a'], 0, 1, 1, 1, 1, 2⟩) :=
    .intro ⟨rfl, rfl, rfl, rfl, rfl, fun _ => rfl, rfl⟩ .nil .none
  have hsame : List.Forall₂ Node.SameUpToGhosts nodes others :=
    .cons (.intro ⟨rfl, rfl, rfl, rfl, rfl, nofun, rfl⟩ (.cons htext .nil) (.some hclose)) .nil
  have hnodes : checkNodes .baseline ['a'] nodes = .error (.error (.duplicateToken ⟨1⟩ 3)) := by
    rw [checkNodes_eq_preorderAll]
    decide
  have hothers : checkNodes .baseline ['a'] others = .error (.error (.duplicateToken ⟨1⟩ 6)) := by
    rw [checkNodes_eq_preorderAll]
    decide
  obtain ⟨htree, -, hcheck⟩ := sameUpToGhosts_unnoticed hsame
  obtain ⟨hok, -⟩ | ⟨v, w, hv, hw, halike⟩ := hcheck .baseline ['a']
  · rw [hnodes] at hok
    cases hok
  · rw [hnodes] at hv
    rw [hothers] at hw
    cases hv
    cases hw
    exact ⟨hsame, hnodes, hothers, htree, halike⟩

end MarkupTree
