import MarkupTree.Proofs.Conformance.Acceptance
import MarkupTree.Proofs.Text.Encoding
import MarkupTree.Proofs.Text.Reach

/-!
# What an accepted token covers

A check reads a source through its cuts, and a cut rounds an offset inside a character up and one
past the end down. So a token can be accepted whose offsets are wrong in the same way at both ends.
There are two such cases and no third: a token of no width may stand anywhere, and a token both of
whose ends split a character covers what lies one unit further on.

* `Agrees.split` — an accepted token stands between two cuts of its source
* `covers_of_check_eq_ok` — which code units the tokens of an accepted document cover
* `check_eq_ok_astray` — both exceptions occur
-/

namespace MarkupTree

open Text

/-- What a token has of the code units of a source. -/
structure Token.Covers (source : List Char) (t : Token) : Prop where
  /-- Only a token without a text has no width. -/
  width : t.raw = [] ↔ t.startOffset = t.endOffset
  /-- A token with a text lies inside the source. -/
  inside : t.raw ≠ [] → t.startOffset < t.endOffset ∧
    t.endOffset.toNat ≤ (encode source).length
  /-- The code units of the text are those between the offsets, unless it begins inside a
  character. -/
  aligned : t.raw = [] ∨ ¬Splits source t.startOffset.toNat →
    encode t.raw = unitsBetween source t.startOffset.toNat t.endOffset.toNat
  /-- A text that begins inside a character ends inside one, and its code units are those one
  further on. -/
  shifted : t.raw ≠ [] → Splits source t.startOffset.toNat → Splits source t.endOffset.toNat ∧
    encode t.raw = unitsBetween source (t.startOffset.toNat + 1) (t.endOffset.toNat + 1)

section

variable {rules : PositionRules} {source : List Char} {t : Token}

/-- The offsets of an accepted token are as far apart as its text is long. -/
theorem Token.Agrees.toNat_endOffset (h : t.Agrees rules source)
    (hlen : unitCount source < UInt32.size) :
    t.endOffset.toNat = t.startOffset.toNat + unitCount t.raw := by
  have hsource := (cutsAt_before hlen t.endOffset).leads
  rw [before_eq_append_of_slice hlen h.text] at hsource
  have hraw := unitCount_mono hsource
  rw [unitCount_append] at hraw
  have hlength := congrArg UInt32.toNat h.length
  rw [UInt32.toNat_sub_of_le _ _ h.ordered, toNat_unitLen (by omega)] at hlength
  have hordered := UInt32.le_iff_toNat_le.mp h.ordered
  omega

/-- An accepted token stands in its source between the cuts at its offsets. A text that is not
empty begins at its offset or, when the offset splits a character, one unit behind it. -/
theorem Token.Agrees.split (h : t.Agrees rules source) (hlen : unitCount source < UInt32.size) :
    ∃ a c, source = a ++ t.raw ++ c ∧ CutsAt source t.startOffset.toNat a ∧
      CutsAt source t.endOffset.toNat (a ++ t.raw) ∧
        (t.raw ≠ [] → t.startOffset.toNat ≤ unitCount a ∧
          unitCount a ≤ t.startOffset.toNat + 1) := by
  have hstart := cutsAt_before hlen t.startOffset
  have hstop := cutsAt_before hlen t.endOffset
  rw [before_eq_append_of_slice hlen h.text] at hstop
  obtain ⟨c, hc⟩ := hstop.leads
  refine ⟨before source t.startOffset, c, hc.symm, hstart, hstop, fun hraw => ⟨?_, ?_⟩⟩
  · -- the text stands behind the cut, so the cut is not at the end
    refine hstart.reaches.resolve_left fun hall => hraw ?_
    rw [hall] at hc
    have hnil : t.raw = [] ∧ c = [] := by simpa using hc
    exact hnil.1
  · exact hstart.unitCount_le

/-- An accepted token covers what its offsets say, apart from the two exceptions. -/
theorem Token.Agrees.covers (h : t.Agrees rules source) (hlen : unitCount source < UInt32.size) :
    t.Covers source := by
  have hends := h.toNat_endOffset hlen
  obtain ⟨a, c, hsource, hstart, hstop, hnear⟩ := h.split hlen
  have htotal : unitCount source = unitCount (a ++ t.raw) + unitCount c := by
    rw [← unitCount_append, ← hsource]
  have hbetween : encode t.raw = unitsBetween source (unitCount a) (unitCount (a ++ t.raw)) := by
    rw [hsource, unitsBetween_append]
  rw [unitCount_append] at htotal hbetween
  have hwidth : t.raw = [] ↔ t.startOffset = t.endOffset := by
    rw [← UInt32.toNat_inj, hends, ← unitCount_eq_zero_iff]
    omega
  refine ⟨hwidth, fun hraw => ⟨?_, ?_⟩, ?_, fun hraw hsplits => ?_⟩
  · rw [UInt32.lt_iff_toNat_lt]
    have := mt unitCount_eq_zero_iff.mp hraw
    omega
  · rw [length_encode]
    have := hnear hraw
    omega
  · intro hcase
    by_cases hraw : t.raw = []
    · rw [← hwidth.mp hraw, unitsBetween_self, hraw]
      rfl
    · have haligned : unitCount a = t.startOffset.toNat := by
        have hsplits := mt hstart.splits_iff.mpr (hcase.resolve_left hraw)
        have := hnear hraw
        omega
      rw [hbetween, haligned, ← hends]
  · have hround := hstart.splits_iff.mp hsplits
    refine ⟨hstop.splits_iff.mpr ?_, ?_⟩
    · rw [unitCount_append]
      omega
    · rw [hbetween, hround, hends, Nat.add_right_comm]

end

/-! ## Accepted documents -/

/-- In an accepted document each token of a node or an attribute, that of a ghost apart, covers its
part of the source. -/
theorem covers_of_check_eq_ok {source : List Char} (hlen : unitCount source < UInt32.size)
    {doc : Document} (h : doc.check source = .ok ()) :
    ∀ n ∈ flatten doc.nodes, ∀ t ∈ n.spans, t.Covers source := by
  obtain ⟨-, hagrees⟩ := met_obligationsAll_iff.mp (checkNodes_eq_ok_iff_met.mp h).1
  exact fun n hn t ht => (hagrees n hn t ht).covers hlen

/-- An attribute in a start tag, behind a line that ends with an emoji. -/
theorem covers_of_check_eq_ok_attribute :
    let source := ['a', '😀', '\n', '<', 'b', ' ', 'c', '>', '<', '/', 'b', '>']
    let token (id : UInt64) (text : List Char) (start : UInt32) :=
      Token.ofText .baseline source text start ⟨id⟩
    let doc : Document := ⟨[Node.leaf .text (token 1 ['a', '😀', '\n'] 0),
      { Node.parent .startTag (token 2 ['<', 'b', ' ', 'c', '>'] 4) ['b'] [] with
        pear := some (Node.parent .endTag (token 4 ['<', '/', 'b', '>'] 9) ['b'] [])
        attributes := [.block { token := token 3 ['c'] 7 }] }], true⟩
    unitCount source < UInt32.size ∧ doc.check source = .ok () ∧
      ∀ n ∈ flatten doc.nodes, ∀ t ∈ n.spans, t.Covers source := by
  intro source token doc
  have hlen : unitCount source < UInt32.size := by decide
  have hcheck : doc.check source = .ok () := by
    rw [Document.check, checkNodes_eq_preorderAll]
    decide
  exact ⟨hlen, hcheck, covers_of_check_eq_ok hlen hcheck⟩

/-- A text that begins and ends inside an emoji is accepted, and so is one of no width behind the
end of its source. -/
theorem check_eq_ok_astray :
    let inside : Token := ⟨⟨1⟩, ['😀'], 1, 3, 1, 1, 3, 5⟩
    let behind : Token := ⟨⟨1⟩, [], 1, 1, 1, 1, 1, 1⟩
    Document.check ['😀', '😀'] ⟨[Node.leaf .text inside], true⟩ = .ok () ∧
      encode inside.raw ≠
        unitsBetween ['😀', '😀'] inside.startOffset.toNat inside.endOffset.toNat ∧
      Document.check [] ⟨[Node.leaf .text behind], true⟩ = .ok () ∧
      ¬behind.endOffset ≤ unitLen [] := by
  intro inside behind
  refine ⟨?_, by decide, ?_, by decide⟩
  · rw [Document.check, checkNodes_eq_preorderAll]
    decide
  · rw [Document.check, checkNodes_eq_preorderAll]
    decide

end MarkupTree
