import MarkupTree.Proofs.Conformance.Made
import MarkupTree.Proofs.Conformance.Pears
import MarkupTree.Proofs.Conformance.Report
import MarkupTree.Proofs.Walk.Change

/-!
# Tampering with one token

A check leaves no slack in any field. Take a forest that it accepts and put something else in one
field of one token that it reads, at any depth, in a pear or in an attribute: the forest is refused.
The place of the token is known by the place of its node and by its slot there. In the list of the
tokens that a check reads, one token is exchanged, and all others stay.

* `exchanged_tokensAll`, `exchanged_spansAll` — the tokens of a forest with another token in a slot
* `mem_tokensAll_iff` — a check reads the tokens in the slots of the visited nodes
* `Agrees.not_tampered` — a tampered token does not agree with the source
* `checkNodes_replaceToken` — a forest with one tampered token, or with an identity that comes twice
-/

namespace MarkupTree

/-! ## Slots of an attribute -/

namespace Attribute

/-- A place for a token in an attribute. -/
inductive Slot where
  | whole
  | spacesBeforeName
  | name
  | spacesBeforeEqual
  | equal
  | spacesAfterEqual
  | startQuote
  | value
  | endQuote
deriving DecidableEq, Repr

/-- The token in a slot, if the attribute has one there. -/
def token? : Attribute → Slot → Option Token
  | html a, .whole => some a.token
  | html a, .spacesBeforeName => some a.spacesBeforeName
  | html a, .name => some a.name
  | html a, .spacesBeforeEqual => a.spacesBeforeEqual
  | html a, .equal => a.equal
  | html a, .spacesAfterEqual => a.spacesAfterEqual
  | html a, .startQuote => a.startQuote
  | html a, .value => a.value
  | html a, .endQuote => a.endQuote
  | block a, .whole => some a.token
  | block _, _ => none

/-- The attribute with a token put into a slot that it has. -/
def put (u : Token) : Slot → Attribute → Attribute
  | .whole, html a => html { a with token := u }
  | .spacesBeforeName, html a => html { a with spacesBeforeName := u }
  | .name, html a => html { a with name := u }
  | .spacesBeforeEqual, html a => html { a with spacesBeforeEqual := some u }
  | .equal, html a => html { a with equal := some u }
  | .spacesAfterEqual, html a => html { a with spacesAfterEqual := some u }
  | .startQuote, html a => html { a with startQuote := some u }
  | .value, html a => html { a with value := some u }
  | .endQuote, html a => html { a with endQuote := some u }
  | .whole, block a => block { a with token := u }
  | _, block a => block a

/-- What is in the slots of an attribute, in the order in which they are read. -/
def slots : Attribute → List (Option Token)
  | html a => some a.token :: a.fields
  | block a => [some a.token]

variable {a : Attribute} {s : Slot} {t : Token}

theorem tokens_eq_slots (a : Attribute) : a.tokens = a.slots.filterMap id := by
  cases a <;> rfl

/-- A token put into a slot takes the place of the one that was there. -/
theorem exchanged_slots (ht : a.token? s = some t) (u : Token) :
    Exchanged [some t] [some u] a.slots (a.put u s).slots := by
  rw [← ht]
  cases a with
  | html a =>
    refine ⟨(html a).slots.take s.ctorIdx, (html a).slots.drop (s.ctorIdx + 1), ?_, ?_⟩
    all_goals cases s <;> rfl
  | block a =>
    cases s with
    | whole => exact Exchanged.self _ _
    | _ => exact nomatch ht

theorem exchanged_tokens (ht : a.token? s = some t) (u : Token) :
    Exchanged [t] [u] a.tokens (a.put u s).tokens := by
  rw [tokens_eq_slots, tokens_eq_slots]
  exact (exchanged_slots ht u).filterMap id

theorem exists_of_mem_slots (h : some t ∈ a.slots) : ∃ s, a.token? s = some t := by
  cases a with
  | html a =>
    have hslots : (html a).slots = [.whole, .spacesBeforeName, .name, .spacesBeforeEqual, .equal,
      .spacesAfterEqual, .startQuote, .value, .endQuote].map (html a).token? := rfl
    rw [hslots] at h
    obtain ⟨s, -, hs⟩ := List.mem_map.mp h
    exact ⟨s, hs⟩
  | block a => exact ⟨.whole, (List.mem_singleton.mp h).symm⟩

/-- The tokens of an attribute are those in its slots. -/
theorem mem_tokens_iff : t ∈ a.tokens ↔ ∃ s, a.token? s = some t := by
  constructor
  · intro h
    rw [tokens_eq_slots] at h
    obtain ⟨o, ho, rfl⟩ := List.mem_filterMap.mp h
    exact exists_of_mem_slots ho
  · rintro ⟨s, hs⟩
    exact (exchanged_tokens hs t).mem_left

end Attribute

/-! ## Slots of a node -/

namespace Node

/-- A place for a token in a node: its own, or a slot of one of its attributes. -/
inductive Slot where
  | own
  | inAttribute (i : Nat) (slot : Attribute.Slot)
deriving DecidableEq, Repr

/-- The token in a slot, if the node has one there. -/
def token? (n : Node) : Slot → Option Token
  | .own => some n.token
  | .inAttribute i s => n.attributes[i]?.bind (·.token? s)

/-- The node with a token put into a slot that it has. -/
def put (u : Token) : Slot → Node → Node
  | .own, n => { n with token := u }
  | .inAttribute i s, n => { n with attributes := n.attributes.modify i (Attribute.put u s) }

variable {n : Node} {s : Slot} {t : Token}

/-- A walk goes on from the node as before. -/
theorem steps_put (u : Token) (s : Slot) (n : Node) (config : WalkConfig) (depth : UInt64) :
    (n.put u s).steps config depth = n.steps config depth := by
  cases s <;> rfl

theorem exchanged_attributes {i : Nat} {s : Attribute.Slot}
    (ht : n.token? (.inAttribute i s) = some t) (u : Token) :
    Exchanged [t] [u] (n.attributes.flatMap Attribute.tokens)
      ((n.put u (.inAttribute i s)).attributes.flatMap Attribute.tokens) := by
  obtain ⟨a, ha, ht⟩ := Option.bind_eq_some_iff.mp ht
  have hattributes := (Exchanged.modify ha (Attribute.put u s)).flatMap Attribute.tokens
  rw [List.flatMap_singleton, List.flatMap_singleton] at hattributes
  exact (Attribute.exchanged_tokens ht u).trans hattributes

theorem exchanged_tokens (ht : n.token? s = some t) (u : Token) :
    Exchanged [t] [u] n.tokens (n.put u s).tokens := by
  cases s with
  | own =>
    obtain rfl : n.token = t := Option.some.inj ht
    exact (Exchanged.self [n.token] [u]).append_right _
  | inAttribute i s => exact (exchanged_attributes ht u).append_left [n.token]

/-- The own token of a ghost apart, the tokens in slots are those that stand in the source. -/
theorem exchanged_spans (hghost : s = .own → n.isGhost = false) (ht : n.token? s = some t)
    (u : Token) : Exchanged [t] [u] n.spans (n.put u s).spans := by
  cases s with
  | own =>
    obtain rfl : n.token = t := Option.some.inj ht
    have hput : (n.put u .own).isGhost = false := hghost rfl
    rw [spans, spans, hghost rfl, hput]
    exact (Exchanged.self [n.token] [u]).append_right _
  | inAttribute i s => exact (exchanged_attributes ht u).append_left _

/-- The tokens of a node and its attributes are those in its slots. -/
theorem mem_tokens_iff : t ∈ n.tokens ↔ ∃ s, n.token? s = some t := by
  constructor
  · intro h
    rcases List.mem_cons.mp h with rfl | h
    · exact ⟨.own, rfl⟩
    · obtain ⟨a, ha, ht⟩ := List.mem_flatMap.mp h
      obtain ⟨i, hi⟩ := List.mem_iff_getElem?.mp ha
      obtain ⟨s, hs⟩ := Attribute.mem_tokens_iff.mp ht
      exact ⟨.inAttribute i s, by rw [token?, hi]; exact hs⟩
  · rintro ⟨s, hs⟩
    exact (exchanged_tokens hs t).mem_left

end Node

/-! ## Forests with another token in a slot -/

/-- A forest with a token put into a slot of the node at a place. -/
def Node.replaceToken (p : Place) (s : Node.Slot) (u : Token) (nodes : List Node) : List Node :=
  Place.changed (Node.put u s) p nodes

/-- The tokens of a forest that stand in the source. -/
def Node.spansAll (nodes : List Node) : List Token := (flatten nodes).flatMap Node.spans

section

variable {nodes : List Node} {p : Place} {n : Node} {s : Node.Slot} {t : Token}

theorem exchanged_tokensAll (hp : p ∈ Node.placesFrom 0 nodes)
    (hn : Place.node? nodes p = some n) (ht : n.token? s = some t) (u : Token) :
    Exchanged [t] [u] (Node.tokensAll nodes) (Node.tokensAll (Node.replaceToken p s u nodes)) :=
  (Node.exchanged_tokens ht u).trans
    (exchanged_flatMap_flatten (fun _ _ _ => rfl) (fun n => n.steps_put u s {}) hp hn)

theorem exchanged_spansAll (hp : p ∈ Node.placesFrom 0 nodes)
    (hn : Place.node? nodes p = some n) (hghost : s = .own → n.isGhost = false)
    (ht : n.token? s = some t) (u : Token) :
    Exchanged [t] [u] (Node.spansAll nodes) (Node.spansAll (Node.replaceToken p s u nodes)) :=
  (Node.exchanged_spans hghost ht u).trans
    (exchanged_flatMap_flatten (fun _ _ _ => rfl) (fun n => n.steps_put u s {}) hp hn)

/-- What a check reads of a forest is in the slots of the visited nodes. -/
theorem mem_tokensAll_iff {nodes : List Node} {t : Token} :
    t ∈ Node.tokensAll nodes ↔ ∃ p ∈ Node.placesFrom 0 nodes, ∃ n s,
      Place.node? nodes p = some n ∧ n.token? s = some t := by
  constructor
  · intro h
    obtain ⟨n, hn, ht⟩ := List.mem_flatMap.mp h
    obtain ⟨p, hp, hn⟩ := mem_flatten_iff.mp hn
    obtain ⟨s, hs⟩ := Node.mem_tokens_iff.mp ht
    exact ⟨p, hp, n, s, hn, hs⟩
  · rintro ⟨p, hp, n, s, hn, hs⟩
    exact (exchanged_tokensAll hp hn hs t).mem_left

end

/-! ## Tampered tokens -/

/-- A token in which something else stands in one field, and not in that of the identity. -/
inductive Token.Tampered (t : Token) : Token → Prop
  | raw {raw} (h : raw ≠ t.raw) : Tampered t { t with raw }
  | startOffset {startOffset} (h : startOffset ≠ t.startOffset) : Tampered t { t with startOffset }
  | endOffset {endOffset} (h : endOffset ≠ t.endOffset) : Tampered t { t with endOffset }
  | startLine {startLine} (h : startLine ≠ t.startLine) : Tampered t { t with startLine }
  | endLine {endLine} (h : endLine ≠ t.endLine) : Tampered t { t with endLine }
  | startCol {startCol} (h : startCol ≠ t.startCol) : Tampered t { t with startCol }
  | endCol {endCol} (h : endCol ≠ t.endCol) : Tampered t { t with endCol }

section

variable {rules : PositionRules} {source : List Char} {nodes : List Node} {t u : Token}

/-- With its text and its start, all fields of a token that agrees with the source are given. -/
theorem Token.Agrees.eq_of_start (ht : t.Agrees rules source) (hu : u.Agrees rules source)
    (hid : t.id = u.id) (hraw : t.raw = u.raw) (hstart : t.startOffset = u.startOffset) : t = u := by
  rw [ht.eq_ofText, hu.eq_ofText, hid, hraw, hstart]

/-- A tampered token does not agree with the source. -/
theorem Token.Agrees.not_tampered (ht : t.Agrees rules source) (hu : t.Tampered u) :
    ¬u.Agrees rules source := by
  intro hu'
  cases hu with
  | raw h => exact h (Except.ok.inj (hu'.text.symm.trans ht.text))
  | startOffset h =>
    -- the end and the length of the text give the start
    exact h (sub_right_injective (hu'.length.trans ht.length.symm))
  | endOffset h => exact h (congrArg Token.endOffset (hu'.eq_of_start ht rfl rfl rfl))
  | startLine h => exact h (congrArg Token.startLine (hu'.eq_of_start ht rfl rfl rfl))
  | endLine h => exact h (congrArg Token.endLine (hu'.eq_of_start ht rfl rfl rfl))
  | startCol h => exact h (congrArg Token.startCol (hu'.eq_of_start ht rfl rfl rfl))
  | endCol h => exact h (congrArg Token.endCol (hu'.eq_of_start ht rfl rfl rfl))

/-! ## Refusal -/

/-- What a check that passes says of the tokens: those that stand in the source agree with it, and
no two have one identity. -/
theorem agrees_and_nodup_of_check_eq_ok (h : checkNodes rules source nodes = .ok ()) :
    (∀ t ∈ Node.spansAll nodes, t.Agrees rules source) ∧
      ((Node.tokensAll nodes).map Token.id).Nodup := by
  obtain ⟨hmet, hnodup⟩ := checkNodes_eq_ok_iff_met.mp h
  rw [filterMap_id?_obligationsAll] at hnodup
  exact ⟨List.forall_mem_flatMap.mpr (met_obligationsAll_iff.mp hmet).2, hnodup⟩

/-- A token that gets the identity of another one in the list is a second with that identity. -/
theorem Exchanged.not_nodup_id {w : Token} {ts us : List Token} (h : Exchanged [t] [w] ts us)
    (hu : u ∈ ts) (hne : u ≠ t) (hid : u.id = w.id) : ¬(us.map Token.id).Nodup := by
  obtain ⟨earlier, later, rfl, rfl⟩ := h
  have hother : u ∈ earlier ++ later := by simpa [hne] using hu
  intro hnodup
  rw [List.append_assoc, List.singleton_append] at hnodup
  exact id_ne_of_nodup hnodup u hother hid

end

/-- No tampering with a single token goes unnoticed. Let a forest pass a check, and take any token
that the check reads, by its slot in a visited node. Unless it is the own token of a ghost, another
text, another offset, another line or another column in it makes the check report a violation. And
so does the identity of another token of the forest, also in the own token of a ghost. -/
theorem checkNodes_replaceToken (rules : PositionRules) (source : List Char) {nodes : List Node}
    (hok : checkNodes rules source nodes = .ok ()) {p : Place} {n : Node} {s : Node.Slot} {t : Token}
    (hp : p ∈ Node.placesFrom 0 nodes) (hn : Place.node? nodes p = some n)
    (ht : n.token? s = some t) :
    ((s = .own → n.isGhost = false) → ∀ u, t.Tampered u →
      ∃ v, checkNodes rules source (Node.replaceToken p s u nodes) = .error (.error v)) ∧
    ∀ u ∈ Node.tokensAll nodes, u ≠ t →
      ∃ v, checkNodes rules source (Node.replaceToken p s { t with id := u.id } nodes)
        = .error (.error v) := by
  obtain ⟨hagrees, -⟩ := agrees_and_nodup_of_check_eq_ok hok
  constructor
  · intro hghost u htampered
    have hspans := exchanged_spansAll hp hn hghost ht u
    have hnot := (hagrees t hspans.mem_left).not_tampered htampered
    exact exists_violation_of_ne fun h =>
      hnot ((agrees_and_nodup_of_check_eq_ok h).1 u hspans.mem_right)
  · intro u hu hne
    have htokens := exchanged_tokensAll hp hn ht { t with id := u.id }
    have hnot := htokens.not_nodup_id hu hne rfl
    exact exists_violation_of_ne fun h => hnot (agrees_and_nodup_of_check_eq_ok h).2

/-- An element with an attribute and an end tag, below a ghost. The name of the attribute gets
another column, and the ghost gets the identity of the end tag. -/
theorem checkNodes_replaceToken_element :
    let source := ['<', 'b', ' ', 'c', '>', 'é', '<', '/', 'b', '>']
    let token (id : UInt64) (text : List Char) (start : UInt32) :=
      Token.ofText .baseline source text start ⟨id⟩
    let name := token 5 ['c'] 3
    let close := Node.parent .endTag (token 7 ['<', '/', 'b', '>'] 6) ['b'] []
    let element := { Node.parent .startTag (token 2 ['<', 'b', ' ', 'c', '>'] 0) ['b']
      [Node.leaf .text (token 6 ['é'] 5)] with
        pear := some close
        attributes := [.html { token := token 3 ['c'] 3, spacesBeforeName := token 4 [' '] 2, name }] }
    let ghost := Node.ghost .omittedTag ⟨⟨1⟩, [], 9, 4, 7, 7, 7, 7⟩ ['b'] [element]
    checkNodes .baseline source [ghost] = .ok () ∧
      (∃ v, checkNodes .baseline source (Node.replaceToken [.child 0, .child 0] (.inAttribute 0 .name)
        { name with startCol := 9 } [ghost]) = .error (.error v)) ∧
      ∃ v, checkNodes .baseline source (Node.replaceToken [.child 0] .own
        { ghost.token with id := close.token.id } [ghost]) = .error (.error v) := by
  intro source token name close element ghost
  have hok : checkNodes .baseline source [ghost] = .ok () := by
    rw [checkNodes_eq_preorderAll]
    decide
  have hchange := checkNodes_replaceToken .baseline source hok (p := [.child 0, .child 0])
    (s := .inAttribute 0 .name) (by decide) rfl rfl
  have hrename := checkNodes_replaceToken .baseline source hok (p := [.child 0]) (s := .own)
    (by decide) rfl rfl
  have hclose : close.token ∈ Node.tokensAll [ghost] := by
    rw [Node.tokensAll, flatten_eq_preorderAll]
    decide
  exact ⟨hok, hchange.1 (fun h => nomatch h) _ (.startCol (by decide)),
    hrename.2 close.token hclose (by decide)⟩

end MarkupTree
