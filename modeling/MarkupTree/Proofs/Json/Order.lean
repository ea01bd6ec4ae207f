import MarkupTree.Json.Tree
import MarkupTree.Proofs.Walk.Places

/-!
# The order of serialized trees

A serialized tree has its nodes in the order in which they are written: a node, what belongs to its
children, and then what belongs to its pear. A walk keeps this order, but it leaves out what is below
end tags and pears, and the pears of nodes that it does not enter. Where a forest has no such nodes,
both are the same.

* `nodeTokens_toJson` — the tokens that are read are those of the nodes that are written
* `flatten_sublist_writtenAll` — a walk visits them in that order
* `flatten_eq_writtenAll` — where pears are in their places, it visits all of them
* `Document.flatten_sublist_toJson` — the same of a serialized document
-/

namespace MarkupTree

/-! ## Reading the tokens -/

namespace Json

mutual

/-- The tokens of the nodes in a serialized tree, in the order in which they stand there. Those of
attributes are passed over. -/
def nodeTokens : Json → List Json
  | array items => itemTokens items
  | object fields => fieldTokens fields
  | _ => []

/-- The tokens of the nodes in the items of an array. -/
def itemTokens : List Json → List Json
  | [] => []
  | v :: vs => v.nodeTokens ++ itemTokens vs

/-- The tokens of the nodes in the fields of an object. -/
def fieldTokens : List (String × Json) → List Json
  | [] => []
  | (key, v) :: fs =>
    (if key = "token" then [v] else if key = "attributes" then [] else v.nodeTokens)
      ++ fieldTokens fs

end

theorem fieldTokens_append (gs : List (String × Json)) : ∀ fs : List (String × Json),
    fieldTokens (fs ++ gs) = fieldTokens fs ++ fieldTokens gs
  | [] => rfl
  | (key, v) :: fs => by
    rw [List.cons_append, fieldTokens, fieldTokens, fieldTokens_append gs fs, List.append_assoc]

end Json

/-! ## The nodes that are written -/

mutual

/-- The nodes of a tree that are written, in their order. Children are written if the kind of the
node carries them, and a pear always is. -/
def Node.written : Node → List Node
  | n@⟨kind, _, _, _, children, pear, _⟩ =>
    n :: ((if kind.carriesChildren then writtenAll children else []) ++ writtenPear pear)

/-- The nodes of a forest that are written. -/
def Node.writtenAll : List Node → List Node
  | [] => []
  | n :: ns => n.written ++ writtenAll ns

/-- The nodes of a pear that are written. -/
def Node.writtenPear : Option Node → List Node
  | none => []
  | some n => n.written

end

mutual

/-- In a serialized tree stand the tokens of the nodes that are written. -/
theorem nodeTokens_toJson : ∀ n : Node,
    n.toJson.nodeTokens = n.written.map fun m => m.token.toJson
  | ⟨kind, token, name, isGhost, children, pear, attributes⟩ => by
    have hhead : Json.fieldTokens [("type", kind.toJson), ("nodeName", .string name),
        ("isGhost", .bool isGhost), ("token", token.toJson)] = [token.toJson] := by
      simp [Json.fieldTokens, Json.nodeTokens, NodeKind.toJson]
    have hchildren : Json.fieldTokens (if kind.carriesChildren then
          [("childNodes", .array (Node.listToJson children))] else [])
        = (if kind.carriesChildren then Node.writtenAll children else []).map
            fun m => m.token.toJson := by
      split
      · simp [Json.fieldTokens, Json.nodeTokens, itemTokens_listToJson children]
      · rfl
    have hattributes : Json.fieldTokens (if attributes.isEmpty then [] else
        [("attributes", .array (attributes.map Attribute.toJson))]) = [] := by
      split <;> simp [Json.fieldTokens]
    rw [Node.toJson, Json.nodeTokens, Json.fieldTokens_append, Json.fieldTokens_append,
      Json.fieldTokens_append, hhead, hchildren, hattributes, fieldTokens_pearField pear,
      List.append_nil, List.append_assoc, Node.written, List.map_cons, List.map_append]
    rfl

theorem itemTokens_listToJson : ∀ ns : List Node,
    Json.itemTokens (Node.listToJson ns) = (Node.writtenAll ns).map fun m => m.token.toJson
  | [] => rfl
  | n :: ns => by
    rw [Node.listToJson, Json.itemTokens, Node.writtenAll, List.map_append, nodeTokens_toJson n,
      itemTokens_listToJson ns]

theorem fieldTokens_pearField : ∀ p : Option Node,
    Json.fieldTokens (Node.pearField p) = (Node.writtenPear p).map fun m => m.token.toJson
  | none => rfl
  | some n => by
    rw [Node.pearField, Node.writtenPear, ← nodeTokens_toJson n]
    simp [Json.fieldTokens]

end

/-- So it is in a serialized document. -/
theorem Document.nodeTokens_toJson (d : Document) :
    d.toJson.nodeTokens = (Node.writtenAll d.nodes).map fun m => m.token.toJson := by
  rw [← itemTokens_listToJson]
  simp [toJson, Json.nodeTokens, Json.fieldTokens]

/-! ## The walk beside them -/

/-- The nodes of a walk that has no bound. -/
theorem map_fst_preorder (n : Node) (depth : UInt64) :
    (n.preorder {} depth).map Prod.fst
      = n :: (if n.isEntered then
          (Node.preorderAll {} (depth + 1) n.children).map Prod.fst ++ n.pear.toList else []) := by
  obtain ⟨kind, token, name, isGhost, children, pear, attributes⟩ := n
  rw [Node.preorder, List.map_cons]
  split
  · rw [if_pos (show WalkConfig.admits {} (depth + 1) = true from rfl), List.map_append,
      List.map_map]
    congr 2
    exact List.map_id' _
  · rfl

theorem carriesChildren_of_isEntered {n : Node} (h : n.isEntered = true) :
    n.kind.carriesChildren = true := by
  rw [Node.isEntered, Bool.and_eq_true] at h
  exact h.1

theorem toList_sublist_writtenPear (p : Option Node) : p.toList.Sublist (Node.writtenPear p) := by
  cases p with
  | none => exact List.Sublist.slnil
  | some n =>
    obtain ⟨kind, token, name, isGhost, children, pear, attributes⟩ := n
    rw [Node.writtenPear, Node.written]
    exact List.singleton_sublist.mpr List.mem_cons_self

mutual

theorem preorder_sublist_written : ∀ (n : Node) (depth : UInt64),
    ((n.preorder {} depth).map Prod.fst).Sublist n.written
  | ⟨kind, token, name, isGhost, children, pear, attributes⟩, depth => by
    rw [map_fst_preorder, Node.written]
    refine List.Sublist.cons_cons _ ?_
    split
    next hentered =>
      rw [if_pos (carriesChildren_of_isEntered hentered)]
      exact (preorderAll_sublist_writtenAll children (depth + 1)).append
        (toList_sublist_writtenPear pear)
    next => exact List.nil_sublist _

theorem preorderAll_sublist_writtenAll : ∀ (ns : List Node) (depth : UInt64),
    ((Node.preorderAll {} depth ns).map Prod.fst).Sublist (Node.writtenAll ns)
  | [], _ => List.Sublist.slnil
  | n :: ns, depth => by
    rw [Node.preorderAll, List.map_append, Node.writtenAll]
    exact (preorder_sublist_written n depth).append (preorderAll_sublist_writtenAll ns depth)

end

/-- A walk visits nodes that are written, in the order in which they are. -/
theorem flatten_sublist_writtenAll (nodes : List Node) :
    (flatten nodes).Sublist (Node.writtenAll nodes) := by
  rw [flatten_eq_preorderAll]
  exact preorderAll_sublist_writtenAll nodes 0

/-! ## Forests that are walked as a whole -/

/-- A pear is an end tag, it belongs to a node that may have children and is no end tag itself, and
end tags have no children. -/
structure Node.Paired (n : Node) : Prop where
  closed : ∀ p, n.pear = some p → p.kind = .endTag
  opening : n.pear.isSome = true → n.kind.carriesChildren = true ∧ n.kind ≠ .endTag
  childless : n.kind = .endTag → n.children = []

/-- A node with neither children nor a pear breaks none of this. -/
theorem Node.everywhere_paired_of_bare {n : Node} (hchildren : n.children = [])
    (hpear : n.pear = none) : Place.Everywhere Paired [n] := by
  rw [Place.everywhere_cons_iff, hchildren, hpear]
  refine ⟨⟨⟨?_, ?_, fun _ => hchildren⟩, Place.everywhere_nil, Place.everywhere_nil⟩,
    Place.everywhere_nil⟩
  · rw [hpear]
    exact fun p h => nomatch h
  · rw [hpear]
    exact fun h => nomatch h

/-- A node that a walk does not enter is written alone. -/
theorem Node.Paired.written_eq_singleton {n : Node} (h : n.Paired) (hn : n.isEntered = false) :
    n.written = [n] := by
  obtain ⟨kind, token, name, isGhost, children, pear, attributes⟩ := n
  obtain ⟨-, hopening, hchildless⟩ := h
  have hpear : pear = none := by
    cases pear with
    | none => rfl
    | some p =>
      obtain ⟨hcarries, hne⟩ := hopening rfl
      simp [isEntered, NodeKind.isEndTag, hcarries, hne] at hn
  have hchildren : kind.carriesChildren = true → children = [] := by
    intro hcarries
    refine hchildless ?_
    simpa [isEntered, NodeKind.isEndTag, hcarries] using hn
  rw [written, hpear]
  split
  next hcarries =>
    rw [hchildren hcarries]
    rfl
  next => rfl

/-- So is the pear of a node. -/
theorem Node.Paired.writtenPear_eq {n : Node} (h : n.Paired)
    (hpear : Place.Everywhere Paired n.pear.toList) : writtenPear n.pear = n.pear.toList := by
  have hclosed := h.closed
  cases hp : n.pear with
  | none => rfl
  | some p =>
    rw [hp] at hclosed hpear
    rw [Option.toList_some, Place.everywhere_cons_iff] at hpear
    refine hpear.1.1.written_eq_singleton ?_
    rw [isEntered, hclosed p rfl]
    rfl

mutual

theorem preorder_eq_written : ∀ (n : Node) (depth : UInt64), Place.Everywhere Node.Paired [n] →
    (n.preorder {} depth).map Prod.fst = n.written
  | ⟨kind, token, name, isGhost, children, pear, attributes⟩, depth, h => by
    obtain ⟨⟨hn, hchildren, hpear⟩, -⟩ := Place.everywhere_cons_iff.mp h
    rw [map_fst_preorder]
    split
    next hentered =>
      rw [Node.written, if_pos (carriesChildren_of_isEntered hentered),
        preorderAll_eq_writtenAll children (depth + 1) hchildren]
      exact congrArg _ (congrArg _ (hn.writtenPear_eq hpear).symm)
    next hleaf => rw [hn.written_eq_singleton (Bool.eq_false_iff.mpr hleaf)]

theorem preorderAll_eq_writtenAll : ∀ (ns : List Node) (depth : UInt64),
    Place.Everywhere Node.Paired ns →
      (Node.preorderAll {} depth ns).map Prod.fst = Node.writtenAll ns
  | [], _, _ => rfl
  | n :: ns, depth, h => by
    obtain ⟨hn, hns⟩ := Place.everywhere_cons_iff.mp h
    have hfirst : Place.Everywhere Node.Paired [n] :=
      Place.everywhere_cons_iff.mpr ⟨hn, Place.everywhere_nil⟩
    rw [Node.preorderAll, List.map_append, Node.writtenAll, preorder_eq_written n depth hfirst,
      preorderAll_eq_writtenAll ns depth hns]

end

/-- In a forest with pears in their places, a walk visits every node that is written. -/
theorem flatten_eq_writtenAll {nodes : List Node} (h : Place.Everywhere Node.Paired nodes) :
    flatten nodes = Node.writtenAll nodes := by
  rw [flatten_eq_preorderAll]
  exact preorderAll_eq_writtenAll nodes 0 h

/-! ## Documents -/

/-- The tokens that a walk of a document meets stand in its JSON in the same order; where pears are
in their places, no others do. -/
theorem Document.flatten_sublist_toJson (d : Document) :
    ((flatten d.nodes).map fun n => n.token.toJson).Sublist d.toJson.nodeTokens ∧
      (Place.Everywhere Node.Paired d.nodes →
        (flatten d.nodes).map (fun n => n.token.toJson) = d.toJson.nodeTokens) := by
  rw [d.nodeTokens_toJson]
  refine ⟨(flatten_sublist_writtenAll d.nodes).map _, fun h => ?_⟩
  rw [flatten_eq_writtenAll h]

theorem Document.flatten_sublist_toJson_pair :
    let token (n : UInt64) : Token := ⟨⟨n⟩, [], 0, 0, 1, 1, 1, 1⟩
    let nodes := [{ Node.parent .startTag (token 1) ['p'] [Node.leaf .text (token 2)] with
      pear := some (Node.parent .endTag (token 3) ['p'] []) }]
    Place.Everywhere Node.Paired nodes ∧
      (flatten nodes).map (fun n => n.token.toJson)
        = (Document.mk nodes true).toJson.nodeTokens := by
  intro token nodes
  have hpaired : Place.Everywhere Node.Paired nodes := by
    refine Place.everywhere_cons_iff.mpr ⟨⟨⟨?_, ?_, ?_⟩, ?_, ?_⟩, Place.everywhere_nil⟩
    · rintro p ⟨⟩
      rfl
    · exact fun _ => ⟨rfl, by decide⟩
    · exact fun _ => by contradiction
    · exact Node.everywhere_paired_of_bare rfl rfl
    · exact Node.everywhere_paired_of_bare rfl rfl
  exact ⟨hpaired, (flatten_sublist_toJson ⟨nodes, true⟩).2 hpaired⟩

end MarkupTree
