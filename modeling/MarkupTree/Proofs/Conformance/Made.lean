import MarkupTree.Proofs.Conformance.Acceptance
import MarkupTree.Token.Factory
import Mathlib.Data.UInt

/-!
# Accepted tokens are those that can be made

A fragment takes its text from the source and its end from the length of that text. A check takes
the end as given and asks for the length and the text. Still the two agree on every span, also on
one that reaches behind the end of the source or begins inside a character: what a check accepts is,
but for its identity, what is made of the source at the same offsets.

* `agrees_iff_eq_ofText` — a token agrees with a source when it is made of it
* `checkNodes_lone_iff` — a node by itself is accepted when its token agrees
* `checkNodes_lone_iff_fragment` — and so when its token is a fragment
-/

namespace MarkupTree

section

variable {rules : PositionRules} {source : List Char} {t : Token}

/-- What agrees with a source is the token of the text between its offsets. -/
theorem Token.Agrees.eq_ofText (h : t.Agrees rules source) :
    t = Token.ofText rules source t.raw t.startOffset t.id := by
  -- the end that is given is the one that the length of the text leads to
  have hend : t.endOffset = t.startOffset + Text.unitLen t.raw :=
    sub_eq_iff_eq_add'.mp h.length
  have hstart := h.start
  have hstop := h.stop
  obtain ⟨id, raw, start, stop, startLine, stopLine, startCol, stopCol⟩ := t
  simp only [Token.startPos, Token.endPos, PositionRules.position, Position.mk.injEq]
    at hend hstart hstop
  obtain ⟨rfl, rfl⟩ := hstart
  obtain ⟨rfl, rfl⟩ := hstop
  subst hend
  rfl

/-- A token agrees with a source exactly when it does not run backwards and is, with its own
identity, the token of the text between its offsets. -/
theorem Token.agrees_iff_eq_ofText :
    t.Agrees rules source ↔ t.startOffset ≤ t.endOffset ∧
      ∃ text, slice source t.startOffset t.endOffset = .ok text ∧
        t = Token.ofText rules source text t.startOffset t.id := by
  constructor
  · intro h
    exact ⟨h.ordered, t.raw, h.text, h.eq_ofText⟩
  · rintro ⟨hle, text, htext, hmade⟩
    have hraw : t.raw = text := congrArg Token.raw hmade
    have hend : t.endOffset = t.startOffset + Text.unitLen text := congrArg Token.endOffset hmade
    refine ⟨hle, ?_, ?_, congrArg Token.startPos hmade, ?_⟩
    · rw [hraw]
      exact sub_eq_iff_eq_add'.mpr hend
    · rw [hraw, htext]
    · rw [hend]
      exact congrArg Token.endPos hmade

/-- A fragment is the token of the text between two offsets, if there is such a text. -/
theorem fragment_eq_ok_iff {start stop : UInt32} {counter : Counter} {made : Token} :
    (Token.fragment rules source start stop counter).1 = .ok made ↔
      ∃ text, slice source start stop = .ok text ∧
        made = Token.ofText rules source text start counter.take.1 := by
  unfold Token.fragment
  split
  · next hslice => simp [hslice]
  · next hslice => simp [hslice, eq_comm]

/-- A node without children and a pear is all that a walk finds. -/
theorem flatten_lone (kind : NodeKind) (t : Token) (name : List Char) :
    flatten [Node.parent kind t name []] = [Node.parent kind t name []] := by
  rw [flatten, visits_eq_preorderAll]
  cases kind <;> rfl

/-- A node without children, pear and attributes is accepted exactly when its token agrees with
the source. -/
theorem checkNodes_lone_iff {kind : NodeKind} {name : List Char} :
    checkNodes rules source [Node.parent kind t name []] = .ok () ↔ t.Agrees rules source := by
  rw [checkNodes_eq_ok_iff_met, met_obligationsAll_iff, filterMap_id?_obligationsAll, flatten_lone]
  simp [Node.spans, Node.tokens, Node.parent]

end

/-- Under all position rules, a node by itself is accepted exactly when its token does not run
backwards and is, but for its identity, the fragment of the source between its offsets. -/
theorem checkNodes_lone_iff_fragment (rules : PositionRules) (source : List Char) (kind : NodeKind)
    (name : List Char) (t : Token) (counter : Counter) :
    checkNodes rules source [Node.parent kind t name []] = .ok () ↔
      t.startOffset ≤ t.endOffset ∧
        ∃ made, (Token.fragment rules source t.startOffset t.endOffset counter).1 = .ok made ∧
          t = { made with id := t.id } := by
  rw [checkNodes_lone_iff, Token.agrees_iff_eq_ofText]
  refine and_congr_right fun _ => ?_
  constructor
  · rintro ⟨text, htext, hmade⟩
    exact ⟨_, fragment_eq_ok_iff.mpr ⟨text, htext, rfl⟩, hmade⟩
  · rintro ⟨made, hfragment, hmade⟩
    obtain ⟨text, htext, rfl⟩ := fragment_eq_ok_iff.mp hfragment
    exact ⟨text, htext, hmade⟩

end MarkupTree
