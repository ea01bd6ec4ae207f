import MarkupTree.Proofs.Conformance.Acceptance
import MarkupTree.Token.Factory
import Mathlib.Data.List.Nodup

/-!
# Which pears a check reaches

Of a pear, a check reads the kind together with the owner, and everything else only when the walk
comes to the pear. It comes to the pears of the nodes that it goes into. So the pear of an element
or a block is checked like any other node, and that of an end tag or of a node of a kind without
children may have any text, any offsets and any identity.

* `pear_mem_preorderAll` — where pears are end tags, those of entered nodes are visited
* `agrees_pear_of_check_eq_ok` — what an accepted document says of the pears of its entered nodes
* `checkNodes_unread_pear` — any other pear might as well not be there
-/

namespace MarkupTree

/-! ## Visited pears -/

mutual

theorem pear_mem_preorder {config : WalkConfig} (hall : ∀ d, config.admits d = true)
    (depth : UInt64) : ∀ n : Node,
      (∀ v ∈ n.preorder config depth, ∀ p, v.1.pear = some p → p.kind = .endTag) →
        ∀ v ∈ n.preorder config depth, v.1.isEntered = true → ∀ p, v.1.pear = some p →
          (p, v.2) ∈ n.preorder config depth
  | ⟨kind, token, name, isGhost, children, pear, attributes⟩ => by
    have hchildren := pear_mem_preorderAll hall (depth + 1) children
    intro htags v hv hentered p hp
    rw [Node.preorder, hall, if_pos rfl] at htags hv ⊢
    rcases List.mem_cons.mp hv with rfl | hv
    · -- a pear comes right behind what belongs to the children of its owner
      rw [if_pos hentered]
      exact List.mem_cons_of_mem _ (List.mem_append_right _ (List.mem_map.mpr
        ⟨p, Option.mem_toList.mpr hp, rfl⟩))
    · split at hv
      next hself =>
        rw [if_pos hself] at htags ⊢
        rcases List.mem_append.mp hv with hv | hv
        · have htags : ∀ v ∈ Node.preorderAll config (depth + 1) children, ∀ p,
              v.1.pear = some p → p.kind = .endTag :=
            fun v hv => htags v (List.mem_cons_of_mem _ (List.mem_append_left _ hv))
          exact List.mem_cons_of_mem _ (List.mem_append_left _
            (hchildren htags v hv hentered p hp))
        · -- the pear is an end tag, and these are not entered
          obtain ⟨q, hq, rfl⟩ := List.mem_map.mp hv
          have hkind := htags _ List.mem_cons_self q (Option.mem_toList.mp hq)
          rw [Node.isEntered, hkind] at hentered
          exact nomatch hentered
      next => exact absurd hv List.not_mem_nil

/-- In a forest whose visited pears are end tags, a walk without a bound visits the pear of every
visited node that it goes into, at the level of that node. -/
theorem pear_mem_preorderAll {config : WalkConfig} (hall : ∀ d, config.admits d = true)
    (depth : UInt64) : ∀ ns : List Node,
      (∀ v ∈ Node.preorderAll config depth ns, ∀ p, v.1.pear = some p → p.kind = .endTag) →
        ∀ v ∈ Node.preorderAll config depth ns, v.1.isEntered = true → ∀ p, v.1.pear = some p →
          (p, v.2) ∈ Node.preorderAll config depth ns
  | [] => fun _ _ hv => absurd hv List.not_mem_nil
  | n :: ns => by
    have hfirst := pear_mem_preorder hall depth n
    have hrest := pear_mem_preorderAll hall depth ns
    rw [Node.preorderAll]
    intro htags v hv hentered p hp
    obtain ⟨htagsFirst, htagsRest⟩ := List.forall_mem_append.mp htags
    rcases List.mem_append.mp hv with hv | hv
    · exact List.mem_append_left _ (hfirst htagsFirst v hv hentered p hp)
    · exact List.mem_append_right _ (hrest htagsRest v hv hentered p hp)

end

theorem pear_mem_flatten {nodes : List Node}
    (htags : ∀ n ∈ flatten nodes, ∀ p, n.pear = some p → p.kind = .endTag) {n p : Node}
    (hn : n ∈ flatten nodes) (hentered : n.isEntered = true) (hp : n.pear = some p) :
    p ∈ flatten nodes := by
  rw [flatten_eq_preorderAll] at htags hn ⊢
  obtain ⟨v, hv, rfl⟩ := List.mem_map.mp hn
  have hpear := pear_mem_preorderAll (fun _ => rfl) 0 nodes
    (fun v hv => htags v.1 (List.mem_map_of_mem hv)) v hv hentered p hp
  exact List.mem_map_of_mem hpear

/-! ## Checked pears -/

/-- The tokens that a check of a forest reads, in order. -/
def Node.tokensAll (nodes : List Node) : List Token := (flatten nodes).flatMap Node.tokens

/-- Where no identity comes twice, a token differs in it from all in front of it and all behind. -/
theorem id_ne_of_nodup {earlier later : List Token} {t : Token}
    (h : ((earlier ++ t :: later).map Token.id).Nodup) : ∀ u ∈ earlier ++ later, u.id ≠ t.id := by
  rw [List.map_append, List.map_cons, List.nodup_middle, List.nodup_cons, ← List.map_append] at h
  exact fun u hu heq => h.1 (heq ▸ List.mem_map_of_mem hu)

theorem exists_split_of_nodup {ts : List Token} {t : Token} (h : (ts.map Token.id).Nodup)
    (ht : t ∈ ts) : ∃ earlier later, ts = earlier ++ t :: later ∧
      ∀ u ∈ earlier ++ later, u.id ≠ t.id := by
  obtain ⟨earlier, later, rfl⟩ := List.mem_iff_append.mp ht
  exact ⟨earlier, later, rfl, id_ne_of_nodup h⟩

/-- In an accepted document the pear of each visited node that a walk goes into is itself visited.
It is an end tag, its token agrees with the source unless it is a ghost, and no other token that
the check reads has the same identity. -/
theorem agrees_pear_of_check_eq_ok {source : List Char} {doc : Document}
    (h : doc.check source = .ok ()) :
    ∀ n ∈ flatten doc.nodes, n.isEntered = true → ∀ p, n.pear = some p →
      p ∈ flatten doc.nodes ∧ p.kind = .endTag ∧
        (p.isGhost = false → p.token.Agrees .baseline source) ∧
        ∃ earlier later, Node.tokensAll doc.nodes = earlier ++ p.token :: later ∧
          ∀ t ∈ earlier ++ later, t.id ≠ p.token.id := by
  obtain ⟨hmet, hnodup⟩ := checkNodes_eq_ok_iff_met.mp h
  obtain ⟨htags, hagrees⟩ := met_obligationsAll_iff.mp hmet
  rw [filterMap_id?_obligationsAll] at hnodup
  intro n hn hentered p hp
  have hpear := pear_mem_flatten htags hn hentered hp
  refine ⟨hpear, htags n hn p hp, fun hghost => ?_, exists_split_of_nodup hnodup ?_⟩
  · refine hagrees p hpear p.token ?_
    rw [Node.spans, hghost]
    exact List.mem_append_left _ List.mem_cons_self
  · exact List.mem_flatMap_of_mem hpear List.mem_cons_self

/-- An element in a block, each with its end tag. -/
theorem agrees_pear_of_check_eq_ok_nested :
    let source := ['{', '<', 'b', '>', 'é', '<', '/', 'b', '>', '}']
    let token (id : UInt64) (text : List Char) (start : UInt32) :=
      Token.ofText .baseline source text start ⟨id⟩
    let close := Node.parent .endTag (token 4 ['<', '/', 'b', '>'] 5) ['b'] []
    let element := { Node.parent .startTag (token 2 ['<', 'b', '>'] 1) ['b']
      [Node.leaf .text (token 3 ['é'] 4)] with pear := some close }
    let doc : Document := ⟨[{ Node.parent .block (token 1 ['{'] 0) ['b'] [element] with
      pear := some (Node.parent .endTag (token 5 ['}'] 9) ['b'] []) }], true⟩
    doc.check source = .ok () ∧ element ∈ flatten doc.nodes ∧
      close.token.Agrees .baseline source := by
  intro source token close element doc
  have hcheck : doc.check source = .ok () := by
    rw [Document.check, checkNodes_eq_preorderAll]
    decide
  have helement : element ∈ flatten doc.nodes := by
    rw [flatten_eq_preorderAll]
    exact List.mem_cons_of_mem _ List.mem_cons_self
  have hpear := agrees_pear_of_check_eq_ok hcheck element helement rfl close rfl
  exact ⟨hcheck, helement, hpear.2.2.1 rfl⟩

/-! ## Unread pears -/

theorem preorderAll_append (config : WalkConfig) (depth : UInt64) (ns ms : List Node) :
    Node.preorderAll config depth (ns ++ ms)
      = Node.preorderAll config depth ns ++ Node.preorderAll config depth ms := by
  rw [preorderAll_eq_flatMap, preorderAll_eq_flatMap, preorderAll_eq_flatMap, List.flatMap_append]

/-- A walk finds nothing behind a node that it does not go into. -/
theorem flatten_append_cons {n : Node} (hleaf : n.isEntered = false) (before after : List Node) :
    flatten (before ++ n :: after) = flatten before ++ n :: flatten after := by
  have hself : n.preorder {} 0 = [(n, 0)] := by
    obtain ⟨kind, token, name, isGhost, children, pear, attributes⟩ := n
    rw [Node.preorder, hleaf]
    rfl
  rw [flatten_eq_preorderAll, flatten_eq_preorderAll, flatten_eq_preorderAll, preorderAll_append,
    Node.preorderAll, hself, List.map_append]
  rfl

/-- Of a node that a walk does not go into, an end tag as pear is not read. With any other end tag
in its place, or with none, the check of the forest ends the same. -/
theorem checkNodes_unread_pear (rules : PositionRules) (source : List Char) {n : Node}
    (hleaf : n.isEntered = false) (htag : ∀ p, n.pear = some p → p.kind = .endTag)
    (before after : List Node) :
    checkNodes rules source (before ++ n :: after)
      = checkNodes rules source (before ++ { n with pear := none } :: after) := by
  have hnode (seen : List TokenId) : checkObligations rules source seen n.obligations
      = checkObligations rules source seen ({ n with pear := none } : Node).obligations := by
    rw [← Node.check_eq, ← Node.check_eq, Node.check, Node.checkPear_eq_ok_iff.mpr htag]
    rfl
  have hbare : ({ n with pear := none } : Node).isEntered = false := hleaf
  simp only [checkNodes_eq, Node.obligationsAll, flatten_append_cons hleaf,
    flatten_append_cons hbare, List.flatMap_append, List.flatMap_cons, checkObligations_append,
    hnode]

/-- A text node whose pear has the wrong text and the identity of its owner, and an end tag whose
pear is no better: both are accepted. -/
theorem check_eq_ok_pear_astray :
    let wrong : Node := Node.parent .endTag ⟨⟨1⟩, ['x'], 0, 1, 1, 1, 1, 2⟩ ['b'] []
    let text : Node := { Node.leaf .text ⟨⟨1⟩, ['a'], 0, 1, 1, 1, 1, 2⟩ with pear := some wrong }
    let close : Node :=
      { Node.parent .endTag ⟨⟨1⟩, ['a'], 0, 1, 1, 1, 1, 2⟩ ['b'] [] with pear := some wrong }
    Document.check ['a'] ⟨[text], true⟩ = .ok () ∧ text ∈ flatten [text] ∧
      Document.check ['a'] ⟨[close], true⟩ = .ok () ∧ close ∈ flatten [close] ∧
      wrong.isGhost = false ∧ ¬wrong.token.Agrees .baseline ['a'] ∧
      wrong.token.id = text.token.id ∧ wrong.token.id = close.token.id := by
  intro wrong text close
  have haccepted (n : Node) (hleaf : n.isEntered = false) (hpear : n.pear = some wrong)
      (hbare : Document.check ['a'] ⟨[{ n with pear := none }], true⟩ = .ok ()) :
      Document.check ['a'] ⟨[n], true⟩ = .ok () ∧ n ∈ flatten [n] := by
    have htag : ∀ p, n.pear = some p → p.kind = .endTag := by
      rintro p hp
      obtain rfl : wrong = p := Option.some.inj (hpear.symm.trans hp)
      rfl
    refine ⟨(checkNodes_unread_pear .baseline ['a'] hleaf htag [] []).trans hbare, ?_⟩
    rw [← List.nil_append [n], flatten_append_cons hleaf]
    exact List.mem_append_right _ List.mem_cons_self
  obtain ⟨htext, hvisitedText⟩ := haccepted text rfl rfl (by
    rw [Document.check, checkNodes_eq_preorderAll]
    decide)
  obtain ⟨hclose, hvisitedClose⟩ := haccepted close rfl rfl (by
    rw [Document.check, checkNodes_eq_preorderAll]
    decide)
  refine ⟨htext, hvisitedText, hclose, hvisitedClose, rfl, fun h => ?_, rfl, rfl⟩
  exact absurd h.text (by decide)

end MarkupTree
