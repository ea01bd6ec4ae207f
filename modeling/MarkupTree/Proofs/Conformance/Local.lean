import MarkupTree.Proofs.Conformance.Acceptance
import MarkupTree.Proofs.Text.Reach

/-!
# What a check reads of a source

Of a token a check looks up the text between its offsets and the positions of both. All of this is
read off the cuts at the two offsets, and a cut is found in the text that leads up to its offset. So a
check reads no more of a source than its tokens reach. This holds of a check that fails, too: the
text and the position that a violation names are looked up in the same way.

* `Obligation.check_congr` — one check reads its source through the cuts of its token
* `checkObligations_congr` — a run whose single checks end alike ends alike
* `checkNodes_eq_of_leads` — sources that begin alike as far as the tokens reach
-/

namespace MarkupTree

open Text PositionRules

/-! ## Cuts of two sources -/

/-- Two sources are cut alike at both ends of a token. -/
structure Token.CutAlike (source other : List Char) (t : Token) : Prop where
  start : before source t.startOffset = before other t.startOffset
  stop : before source t.endOffset = before other t.endOffset

section

variable {source other : List Char} {t : Token}

theorem Token.CutAlike.slice_eq (h : t.CutAlike source other) :
    slice source t.startOffset t.endOffset = slice other t.startOffset t.endOffset := by
  unfold slice
  rw [← length_before, ← length_before, h.start, h.stop]

theorem Token.CutAlike.position_eq (h : t.CutAlike source other) (e : Edge) :
    baseline.position source (t.offsetAt e) = baseline.position other (t.offsetAt e) := by
  cases e with
  | start => exact baseline_position_congr h.start
  | stop => exact baseline_position_congr h.stop

/-- Sources that begin alike are cut alike at the ends of a token that lies in their common part. -/
theorem Token.cutAlike_of_leads {common : List Char} (hsource : common <+: source)
    (hother : common <+: other) (hfits : unitCount common < UInt32.size)
    (hstart : t.startOffset.toNat ≤ unitCount common)
    (hstop : t.endOffset.toNat ≤ unitCount common) : t.CutAlike source other where
  start := by rw [before_of_lead hfits hsource hstart, before_of_lead hfits hother hstart]
  stop := by rw [before_of_lead hfits hsource hstop, before_of_lead hfits hother hstop]

/-! ## One check -/

/-- The token that is looked up in the source. -/
def Obligation.token? : Obligation → Option Token
  | text t | edge t _ => some t
  | pear _ | identity _ | length _ => none

/-- A check reads its source through the cuts at the ends of the token that it looks up. -/
theorem Obligation.check_congr {o : Obligation} (h : ∀ t ∈ o.token?, t.CutAlike source other)
    (seen : List TokenId) : o.check baseline source seen = o.check baseline other seen := by
  cases o with
  | pear n => rfl
  | identity t => rfl
  | length t => rfl
  | text t => rw [check, check, (h t rfl).slice_eq]
  | edge t e => rw [check, check, Token.checkEdge, Token.checkEdge, (h t rfl).position_eq]

theorem Token.eq_of_mem_obligations {u : Token} {o : Obligation} (ho : o ∈ t.obligations)
    (hu : u ∈ o.token?) : u = t := by
  simp only [Token.obligations, List.mem_cons, List.not_mem_nil, or_false] at ho
  rcases ho with rfl | rfl | rfl | rfl | rfl
  · cases hu
  · cases hu
  · exact (Option.some.inj hu).symm
  · exact (Option.some.inj hu).symm
  · exact (Option.some.inj hu).symm

/-- Only the tokens that stand in the source are looked up. -/
theorem Node.mem_spans_of_mem_obligations {n : Node} {o : Obligation} (ho : o ∈ n.obligations)
    (ht : t ∈ o.token?) : t ∈ n.spans := by
  rw [Node.obligations, List.mem_cons, List.mem_append] at ho
  rw [Node.spans, List.mem_append]
  rcases ho with rfl | hown | hattribute
  · cases ht
  · left
    split at hown
    · rw [List.mem_singleton] at hown
      subst hown
      cases ht
    · next hvisible =>
      rw [if_neg hvisible, Token.eq_of_mem_obligations hown ht]
      exact List.mem_singleton_self _
  · right
    obtain ⟨u, hu, ho⟩ := List.mem_flatMap.mp hattribute
    rwa [Token.eq_of_mem_obligations ho ht]

end

/-! ## A run of checks -/

/-- A run whose single checks end alike under two rules and sources ends alike. -/
theorem checkObligations_congr {rules rules' : PositionRules} {source other : List Char} :
    ∀ {os : List Obligation} (seen : List TokenId),
      (∀ o ∈ os, ∀ seen, o.check rules source seen = o.check rules' other seen) →
        checkObligations rules source seen os = checkObligations rules' other seen os
  | [], _, _ => rfl
  | o :: os, seen, h => by
    rw [List.forall_mem_cons] at h
    rw [checkObligations, checkObligations, h.1]
    cases o.check rules' other seen with
    | error _ => rfl
    | ok ids => exact checkObligations_congr ids h.2

/-- Let two sources begin with the same `n` units, and let no token that stands in the source have an
offset beyond them. Then a check of the forest against the one source and against the other ends the
same: both pass, or both report the same violation with the same data. -/
theorem checkNodes_eq_of_leads {source other common : List Char} (hsource : common <+: source)
    (hother : common <+: other) {n : UInt32} (hn : unitCount common = n.toNat) {nodes : List Node}
    (hreach : ∀ m ∈ flatten nodes, ∀ t ∈ m.spans, t.startOffset ≤ n ∧ t.endOffset ≤ n) :
    checkNodes baseline source nodes = checkNodes baseline other nodes := by
  have hfits : unitCount common < UInt32.size := hn ▸ n.toNat_lt_size
  rw [checkNodes_eq, checkNodes_eq, checkObligations_congr]
  intro o ho seen
  obtain ⟨m, hm, ho⟩ := List.mem_flatMap.mp ho
  refine Obligation.check_congr (fun t ht => ?_) seen
  obtain ⟨hstart, hstop⟩ := hreach m hm t (Node.mem_spans_of_mem_obligations ho ht)
  rw [UInt32.le_iff_toNat_le, ← hn] at hstart hstop
  exact Token.cutAlike_of_leads hsource hother hfits hstart hstop

/-- A ghost that is far away, a text, and one that ends inside the emoji with which the common part
ends. -/
theorem checkNodes_eq_of_leads_emoji :
    let source := ['a', '😀', '\n', 'b']
    let other := ['a', '😀', 'c']
    let nodes := [Node.ghost .omittedTag ⟨⟨1⟩, [], 9, 4, 7, 7, 7, 7⟩ ['b']
      [Node.leaf .text ⟨⟨2⟩, ['a'], 0, 1, 1, 1, 1, 2⟩,
        Node.leaf .text ⟨⟨3⟩, ['x'], 1, 2, 1, 1, 2, 3⟩]]
    ['a', '😀'] <+: source ∧ ['a', '😀'] <+: other ∧ unitCount ['a', '😀'] = (3 : UInt32).toNat ∧
      (∀ m ∈ flatten nodes, ∀ t ∈ m.spans, t.startOffset ≤ 3 ∧ t.endOffset ≤ 3) ∧
      checkNodes baseline source nodes
        = .error (.error (.rawMismatch ⟨3⟩ 1 2 ['x'] ['😀'])) ∧
      checkNodes baseline source nodes = checkNodes baseline other nodes := by
  intro source other nodes
  have hreach : ∀ m ∈ flatten nodes, ∀ t ∈ m.spans, t.startOffset ≤ 3 ∧ t.endOffset ≤ 3 := by
    rw [flatten_eq_preorderAll]
    decide
  have hcheck : checkNodes baseline source nodes
      = .error (.error (.rawMismatch ⟨3⟩ 1 2 ['x'] ['😀'])) := by
    rw [checkNodes_eq_preorderAll]
    decide
  have hsource : ['a', '😀'] <+: source := by decide
  have hother : ['a', '😀'] <+: other := by decide
  exact ⟨hsource, hother, by decide, hreach, hcheck,
    checkNodes_eq_of_leads hsource hother (by decide) hreach⟩

end MarkupTree
