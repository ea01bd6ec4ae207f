import MarkupTree.Json.Read
import Mathlib.Data.List.Forall2

/-!
# What serialized trees tell apart

A node writes its children only if its kind carries them, so those below a text, a comment, a
doctype or an invalid node are hidden. Everything else is written: kinds, names, tokens with their
identities, attributes with what they leave out, pears and the pears of pears. So two documents have
the same JSON exactly when they are the same but for hidden children, even if the order of the fields
does not count.

* `Token.eq_of_same`, `Attribute.eq_of_same` — tokens and attributes are known by their JSON
* `pruned_eq_of_same` — nodes are known up to hidden children
* `Document.toJson_eq_iff` — so are documents, and no more can be known
-/

namespace MarkupTree

/-! ## Equality of values -/

namespace Json

@[simp] theorem field?_nil (key : String) : field? key [] = none := rfl

@[simp] theorem field?_cons (key k : String) (v : Json) (fs : List (String × Json)) :
    field? key ((k, v) :: fs) = if k = key then some v else field? key fs := by
  by_cases h : k = key <;> simp [field?, h]

@[simp] theorem field?_append (key : String) (fs gs : List (String × Json)) :
    field? key (fs ++ gs) = (field? key fs).or (field? key gs) := by
  rw [field?, List.find?_append, Option.map_or]
  rfl

@[simp] theorem field?_ite (key : String) (p : Prop) [Decidable p] (fs gs : List (String × Json)) :
    field? key (if p then fs else gs) = if p then field? key fs else field? key gs :=
  apply_ite (field? key) p fs gs

/-- Two values are the same when the order of the fields of an object does not count: the same
field, if any, is found under each key. -/
inductive Same : Json → Json → Prop
  | null : Same null null
  | bool (b : Bool) : Same (bool b) (bool b)
  | int (n : Int) : Same (int n) (int n)
  | real (literal : List Char) : Same (real literal) (real literal)
  | string (s : List Char) : Same (string s) (string s)
  | array {vs ws : List Json} (items : List.Forall₂ Same vs ws) : Same (array vs) (array ws)
  | object {fs gs : List (String × Json)}
      (fields : ∀ key, Option.Rel Same (field? key fs) (field? key gs)) :
      Same (object fs) (object gs)

mutual

theorem same_refl : ∀ v : Json, v.Same v
  | null => .null
  | bool b => .bool b
  | int n => .int n
  | real literal => .real literal
  | string s => .string s
  | array items => .array (same_refl_items items)
  | object fields => .object (same_refl_fields fields)

theorem same_refl_items : ∀ vs : List Json, List.Forall₂ Same vs vs
  | [] => .nil
  | v :: vs => .cons (same_refl v) (same_refl_items vs)

theorem same_refl_fields : ∀ (fs : List (String × Json)) (key : String),
    Option.Rel Same (field? key fs) (field? key fs)
  | [], _ => .none
  | (k, v) :: fs, key => by
    rw [field?_cons]
    split
    · exact .some (same_refl v)
    · exact same_refl_fields fs key

end

@[simp] theorem same_bool_iff {a b : Bool} : (bool a).Same (bool b) ↔ a = b := by
  constructor
  · rintro ⟨⟩; rfl
  · rintro rfl; exact .bool a

@[simp] theorem same_int_iff {m n : Int} : (int m).Same (int n) ↔ m = n := by
  constructor
  · rintro ⟨⟩; rfl
  · rintro rfl; exact .int m

@[simp] theorem same_word_iff {m n : UInt32} : (word m).Same (word n) ↔ m = n := by
  rw [word, word, nat, nat, same_int_iff, Int.natCast_inj, UInt32.toNat_inj]

@[simp] theorem same_string_iff {s t : List Char} : (string s).Same (string t) ↔ s = t := by
  constructor
  · rintro ⟨⟩; rfl
  · rintro rfl; exact .string s

@[simp] theorem same_array_iff {vs ws : List Json} :
    (array vs).Same (array ws) ↔ List.Forall₂ Same vs ws := by
  constructor
  · rintro ⟨⟩; assumption
  · exact .array

theorem same_object_iff {fs gs : List (String × Json)} :
    (object fs).Same (object gs) ↔ ∀ key, Option.Rel Same (field? key fs) (field? key gs) := by
  constructor
  · rintro ⟨⟩; assumption
  · exact .object

end Json

open Json

/-! ## Tokens -/

@[simp] theorem TokenId.same_toJson_iff {a b : TokenId} : a.toJson.Same b.toJson ↔ a = b := by
  obtain ⟨a⟩ := a
  obtain ⟨b⟩ := b
  rw [toJson, toJson, nat, nat, same_int_iff, Int.natCast_inj, UInt64.toNat_inj, TokenId.mk.injEq]

@[simp] theorem NodeKind.same_toJson_iff {k l : NodeKind} : k.toJson.Same l.toJson ↔ k = l := by
  rw [toJson, toJson, same_string_iff, ← ofTag?_eq_some_iff, ofTag?_eq_some_iff.mpr rfl,
    Option.some.injEq, eq_comm]

theorem Token.eq_of_same {t u : Token} (h : t.toJson.Same u.toJson) : t = u := by
  rw [toJson, toJson, same_object_iff] at h
  have hid : t.id = u.id := by simpa using h "id"
  have hraw : t.raw = u.raw := by simpa using h "raw"
  have hstartOffset : t.startOffset = u.startOffset := by simpa using h "startOffset"
  have hendOffset : t.endOffset = u.endOffset := by simpa using h "endOffset"
  have hstartLine : t.startLine = u.startLine := by simpa using h "startLine"
  have hendLine : t.endLine = u.endLine := by simpa using h "endLine"
  have hstartCol : t.startCol = u.startCol := by simpa using h "startCol"
  have hendCol : t.endCol = u.endCol := by simpa using h "endCol"
  rw [Token.mk.injEq]
  exact ⟨hid, hraw, hstartOffset, hendOffset, hstartLine, hendLine, hstartCol, hendCol⟩

@[simp] theorem Token.same_toJson_iff {t u : Token} : t.toJson.Same u.toJson ↔ t = u :=
  ⟨Token.eq_of_same, fun h => h ▸ same_refl _⟩

@[simp] theorem same_option_toJson_iff {o o' : Option Token} :
    (option Token.toJson o).Same (option Token.toJson o') ↔ o = o' := by
  cases o with
  | none =>
    cases o' with
    | none => exact iff_of_true .null rfl
    | some u => exact iff_of_false (fun h => nomatch h) (fun h => nomatch h)
  | some t =>
    cases o' with
    | none => exact iff_of_false (fun h => nomatch h) (fun h => nomatch h)
    | some u => rw [option, option, Token.same_toJson_iff, Option.some.injEq]

/-! ## Attributes -/

@[simp] theorem field?_potentialNameField (name : Option (List Char)) (key : String) :
    field? key (potentialNameField name)
      = if "potentialName" = key then name.map string else none := by
  cases name <;> simp [potentialNameField]

@[simp] theorem rel_map_string_iff {o o' : Option (List Char)} :
    Option.Rel Same (o.map string) (o'.map string) ↔ o = o' := by
  cases o <;> cases o' <;> simp

theorem Attribute.html_eq_of_same {a b : HtmlAttribute}
    (h : (html a).toJson.Same (html b).toJson) : a = b := by
  rw [toJson, toJson, same_object_iff] at h
  have htoken : a.token = b.token := by simpa using h "token"
  have hbefore : a.spacesBeforeName = b.spacesBeforeName := by simpa using h "spacesBeforeName"
  have hname : a.name = b.name := by simpa using h "name"
  have hspaces : a.spacesBeforeEqual = b.spacesBeforeEqual := by
    simpa using h "spacesBeforeEqual"
  have hequal : a.equal = b.equal := by simpa using h "equal"
  have hafter : a.spacesAfterEqual = b.spacesAfterEqual := by simpa using h "spacesAfterEqual"
  have hstart : a.startQuote = b.startQuote := by simpa using h "startQuote"
  have hvalue : a.value = b.value := by simpa using h "value"
  have hend : a.endQuote = b.endQuote := by simpa using h "endQuote"
  have hdirective : a.isDirective = b.isDirective := by simpa using h "isDirective"
  have hdynamic : a.isDynamicValue = b.isDynamicValue := by simpa using h "isDynamicValue"
  have hinvalid : a.isInvalid = b.isInvalid := by simpa using h "isInvalid"
  have hpotential : a.potentialName = b.potentialName := by simpa using h "potentialName"
  rw [HtmlAttribute.mk.injEq]
  exact ⟨htoken, hbefore, hname, hspaces, hequal, hafter, hstart, hvalue, hend, hdirective,
    hdynamic, hinvalid, hpotential⟩

theorem Attribute.block_eq_of_same {a b : BlockAttribute}
    (h : (block a).toJson.Same (block b).toJson) : a = b := by
  rw [toJson, toJson, same_object_iff] at h
  have htoken : a.token = b.token := by simpa using h "token"
  have hpotential : a.potentialName = b.potentialName := by simpa using h "potentialName"
  have hdirective : a.isDirective = b.isDirective := by simpa using h "isDirective"
  have hdynamic : a.isDynamicValue = b.isDynamicValue := by simpa using h "isDynamicValue"
  rw [BlockAttribute.mk.injEq]
  exact ⟨htoken, hpotential, hdirective, hdynamic⟩

/-- The form of an attribute is told by its tag. -/
theorem Attribute.tag_eq_of_same {a b : Attribute} (h : a.toJson.Same b.toJson) :
    a.tag = b.tag := by
  cases a <;> cases b <;> (rw [toJson, toJson, same_object_iff] at h; simpa using h "type")

theorem Attribute.eq_of_same {a b : Attribute} (h : a.toJson.Same b.toJson) : a = b := by
  have htag := tag_eq_of_same h
  have hne : "html-attr".toList ≠ "ps-attr".toList := by decide
  cases a with
  | html a =>
    cases b with
    | html b => rw [html_eq_of_same h]
    | block b => exact absurd htag hne
  | block a =>
    cases b with
    | html b => exact absurd htag.symm hne
    | block b => rw [block_eq_of_same h]

/-- Lists of attributes are known by the lists of their values. -/
theorem Attribute.list_eq_of_same {as bs : List Attribute}
    (h : List.Forall₂ Same (as.map toJson) (bs.map toJson)) : as = bs := by
  rw [List.forall₂_map_left_iff, List.forall₂_map_right_iff] at h
  have heq : List.Forall₂ (· = ·) as bs := h.imp fun _ _ => eq_of_same
  rwa [List.forall₂_eq_eq_eq] at heq

/-- So are those that are left out when they are empty. -/
theorem Attribute.list_eq_of_rel {as bs : List Attribute}
    (h : Option.Rel Same (if as = [] then none else some (array (as.map toJson)))
      (if bs = [] then none else some (array (bs.map toJson)))) : as = bs := by
  cases as with
  | nil =>
    cases bs with
    | nil => rfl
    | cons b bs => simp at h
  | cons a as =>
    cases bs with
    | nil => simp at h
    | cons b bs =>
      rw [if_neg (List.cons_ne_nil _ _), if_neg (List.cons_ne_nil _ _), Option.rel_some_some,
        same_array_iff] at h
      exact list_eq_of_same h

/-! ## Nodes -/

mutual

/-- The node as its JSON shows it: without the children of any node, here and below, whose kind
carries none. -/
def Node.pruned : Node → Node
  | ⟨kind, token, name, isGhost, children, pear, attributes⟩ =>
    { kind, token, name, isGhost, attributes
      children := if kind.carriesChildren then prunedAll children else []
      pear := prunedPear pear }

/-- The nodes of a forest as its JSON shows them. -/
def Node.prunedAll : List Node → List Node
  | [] => []
  | n :: ns => n.pruned :: prunedAll ns

/-- The pear of a node as its JSON shows it. -/
def Node.prunedPear : Option Node → Option Node
  | none => none
  | some n => some n.pruned

end

mutual

/-- What is hidden is not written. -/
theorem toJson_pruned : ∀ n : Node, n.pruned.toJson = n.toJson
  | ⟨kind, token, name, isGhost, children, pear, attributes⟩ => by
    rw [Node.pruned, Node.toJson, Node.toJson, pearField_prunedPear pear]
    cases kind.carriesChildren with
    | false => rfl
    | true => rw [if_pos rfl, if_pos rfl, if_pos rfl, listToJson_prunedAll children]

theorem listToJson_prunedAll : ∀ ns : List Node,
    Node.listToJson (Node.prunedAll ns) = Node.listToJson ns
  | [] => rfl
  | n :: ns => by
    rw [Node.prunedAll, Node.listToJson, Node.listToJson, toJson_pruned n,
      listToJson_prunedAll ns]

theorem pearField_prunedPear : ∀ p : Option Node,
    Node.pearField (Node.prunedPear p) = Node.pearField p
  | none => rfl
  | some n => by rw [Node.prunedPear, Node.pearField, Node.pearField, toJson_pruned n]

end

@[simp] theorem field?_pearField (p : Option Node) (key : String) :
    field? key (Node.pearField p) = if "pearNode" = key then p.map Node.toJson else none := by
  cases p <;> simp [Node.pearField]

/-- What two nodes have in common that are written alike. -/
structure Node.WrittenAlike (n m : Node) : Prop where
  kind : n.kind = m.kind
  token : n.token = m.token
  name : n.name = m.name
  isGhost : n.isGhost = m.isGhost
  children : n.kind.carriesChildren = true →
    List.Forall₂ Same (listToJson n.children) (listToJson m.children)
  pear : Option.Rel Same (n.pear.map toJson) (m.pear.map toJson)
  attributes : n.attributes = m.attributes

theorem Node.writtenAlike_of_same {n m : Node} (h : n.toJson.Same m.toJson) :
    n.WrittenAlike m := by
  obtain ⟨kind, token, name, isGhost, children, pear, attributes⟩ := n
  obtain ⟨kind', token', name', isGhost', children', pear', attributes'⟩ := m
  rw [toJson, toJson, same_object_iff] at h
  have hkind : kind = kind' := by simpa using h "type"
  subst hkind
  have hchildren := h "childNodes"
  have hattributes := h "attributes"
  refine ⟨rfl, by simpa using h "token", by simpa using h "nodeName", by simpa using h "isGhost",
    fun hcarries => ?_, by simpa using h "pearNode", ?_⟩
  · dsimp only at hcarries
    simpa [hcarries] using hchildren
  · exact Attribute.list_eq_of_rel (by simpa using hattributes)

/-! ## Up to hidden children -/

mutual

/-- Nodes that are written alike are the same but for hidden children. -/
theorem pruned_eq_of_same : ∀ n m : Node, n.toJson.Same m.toJson → n.pruned = m.pruned
  | ⟨kind, token, name, isGhost, children, pear, attributes⟩,
    ⟨kind', token', name', isGhost', children', pear', attributes'⟩, h => by
    obtain ⟨hkind, htoken, hname, hghost, hchildren, hpear, hattributes⟩ :=
      Node.writtenAlike_of_same h
    dsimp only at hkind htoken hname hghost hchildren hpear hattributes
    subst hkind htoken hname hghost hattributes
    rw [Node.pruned, Node.pruned, prunedPear_eq_of_rel pear pear' hpear]
    cases hcarries : kind.carriesChildren with
    | false => rfl
    | true => rw [if_pos rfl, if_pos rfl, prunedAll_eq_of_same children children' (hchildren hcarries)]

theorem prunedAll_eq_of_same : ∀ ns ms : List Node,
    List.Forall₂ Same (Node.listToJson ns) (Node.listToJson ms) →
      Node.prunedAll ns = Node.prunedAll ms
  | [], [], _ => rfl
  | [], m :: ms, h => nomatch h
  | n :: ns, [], h => nomatch h
  | n :: ns, m :: ms, h => by
    rw [Node.listToJson, Node.listToJson, List.forall₂_cons] at h
    rw [Node.prunedAll, Node.prunedAll, pruned_eq_of_same n m h.1, prunedAll_eq_of_same ns ms h.2]

theorem prunedPear_eq_of_rel : ∀ p q : Option Node,
    Option.Rel Same (p.map Node.toJson) (q.map Node.toJson) →
      Node.prunedPear p = Node.prunedPear q
  | none, none, _ => rfl
  | none, some m, h => nomatch h
  | some n, none, h => nomatch h
  | some n, some m, h => by
    rw [Option.map_some, Option.map_some, Option.rel_some_some] at h
    rw [Node.prunedPear, Node.prunedPear, pruned_eq_of_same n m h]

end

/-- Documents have the same JSON exactly when they agree in what they are a part of and in all nodes
but for hidden children, whether the order of fields counts or not. -/
theorem Document.toJson_eq_iff (d e : Document) :
    (d.toJson = e.toJson ↔
        d.isFragment = e.isFragment ∧ Node.prunedAll d.nodes = Node.prunedAll e.nodes) ∧
      (d.toJson.Same e.toJson ↔
        d.isFragment = e.isFragment ∧ Node.prunedAll d.nodes = Node.prunedAll e.nodes) := by
  have hwritten (h : d.isFragment = e.isFragment ∧
      Node.prunedAll d.nodes = Node.prunedAll e.nodes) : d.toJson = e.toJson := by
    rw [toJson, toJson, ← listToJson_prunedAll d.nodes, h.2, listToJson_prunedAll, h.1]
  have hread (h : d.toJson.Same e.toJson) : d.isFragment = e.isFragment ∧
      Node.prunedAll d.nodes = Node.prunedAll e.nodes := by
    rw [toJson, toJson, same_object_iff] at h
    have hnodes := h "nodeList"
    exact ⟨by simpa using h "isFragment", prunedAll_eq_of_same _ _ (by simpa using hnodes)⟩
  refine ⟨⟨fun h => hread (h ▸ same_refl _), hwritten⟩, hread, fun h => ?_⟩
  rw [hwritten h]
  exact same_refl _

end MarkupTree
