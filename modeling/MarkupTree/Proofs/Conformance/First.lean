import MarkupTree.Proofs.Conformance.Parsed
import MarkupTree.Proofs.Conformance.Report

/-!
# The first violation

A check that fails reports the first obligation that does not hold. So a violation is known when all
that is asked in front of it holds, whatever stands behind it.

* `checkNodes_eq_rawMismatch` — a forest of plain nodes one of which has another text than the
  source, behind nodes that agree with it
-/

namespace MarkupTree

variable {rules : PositionRules} {source : List Char}

theorem Node.Plain.obligations_eq {n : Node} (h : n.Plain) :
    n.obligations = [.pear n, .identity n.token, .length n.token] ++
      .text n.token :: [.edge n.token .start, .edge n.token .stop] := by
  rw [Node.obligations, h.visible, h.bare]
  rfl

/-- Behind plain nodes that agree with the source, the check of a forest of plain nodes ends at a
node whose text is not what the source has there. -/
theorem checkNodes_eq_rawMismatch {nodes lead rest : List Node} {n : Node} {expected : List Char}
    (hflat : flatten nodes = lead ++ n :: rest) (hplain : ∀ m ∈ flatten nodes, m.Plain)
    (hnodup : (((flatten nodes).map Node.token).map Token.id).Nodup)
    (hlead : ∀ m ∈ lead, m.token.Agrees rules source)
    (hwell : n.token.startOffset ≤ n.token.endOffset ∧
      n.token.endOffset - n.token.startOffset = Text.unitLen n.token.raw)
    (hslice : slice source n.token.startOffset n.token.endOffset = .ok expected)
    (hne : expected ≠ n.token.raw) :
    checkNodes rules source nodes
      = .error (.error (.rawMismatch n.token.id n.token.startOffset n.token.endOffset n.token.raw
          expected)) := by
  have hn : n.Plain := hplain n (by simp [hflat])
  obtain ⟨earlier, hearlier⟩ : ∃ earlier : List Obligation, earlier
    = lead.flatMap Node.obligations ++ [.pear n, .identity n.token, .length n.token] := ⟨_, rfl⟩
  have hsplit : Node.obligationsAll nodes
      = earlier ++ .text n.token :: ([.edge n.token .start, .edge n.token .stop] ++
          rest.flatMap Node.obligations) := by
    rw [hearlier, Node.obligationsAll, hflat, List.flatMap_append, List.flatMap_cons,
      hn.obligations_eq]
    simp only [List.append_assoc, List.cons_append]
  have hmet : ∀ o ∈ earlier, o.Met rules source := by
    rw [hearlier, List.forall_mem_append, List.forall_mem_flatMap]
    constructor
    · intro m hm
      have hm' : m.Plain := hplain m (by simp [hflat, hm])
      refine Node.met_obligations_iff.mpr ⟨hm'.closed, fun t ht => ?_⟩
      rw [hm'.spans_eq, List.mem_singleton] at ht
      exact ht ▸ hlead m hm
    · simp only [List.forall_mem_cons, Obligation.Met]
      exact ⟨hn.closed, trivial, hwell, List.forall_mem_nil _⟩
  have hnew : (earlier.filterMap Obligation.id?).Nodup := by
    -- these identities are some of those of the whole forest, in the same order
    rw [← flatMap_tokens_of_plain hplain, ← filterMap_id?_obligationsAll, hsplit,
      List.filterMap_append] at hnodup
    exact hnodup.of_append_left
  have hfails : ¬(Obligation.text n.token).Holds rules source earlier := by
    rintro ⟨htext, -⟩
    exact hne (Except.ok.inj (hslice.symm.trans htext))
  have hall := Obligation.allHold_iff.mpr ⟨hmet, hnew⟩
  have herror := (guarded_obligationsAll nodes).checkObligations_eq_error_iff.mpr
    ⟨earlier, _, _, _, hsplit, hall, hfails, .text hslice, rfl⟩
  rw [checkNodes_eq, herror]
  rfl

end MarkupTree
