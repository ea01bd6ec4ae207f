import MarkupTree.Proofs.Conformance.Obligation
import Mathlib.Data.List.Induction
import Mathlib.Data.List.Nodup

/-!
# What a check reports

A check that fails names the first obligation that does not hold, and says of it what the message
needs: the owner and the kind of a wrong pear, the identity that was seen before, the offsets and the
length, the two texts, or the two positions. It never faults, since the text of a token is only
looked up behind its offsets.

* `checkObligations_eq_error_iff` — a run ends at the first obligation whose check fails
* `Obligation.exists_reports` — what is reported of an obligation that does not hold
* `guarded_obligationsAll` — no text is looked up in front of its offsets
* `checkNodes_eq_error_iff` — a check reports the first obligation that does not hold
-/

namespace MarkupTree

namespace Obligation

/-! ## Holding and failing -/

/-- An obligation holds behind others when it is met and its identity is not one of theirs. -/
def Holds (rules : PositionRules) (source : List Char) (earlier : List Obligation)
    (o : Obligation) : Prop :=
  o.Met rules source ∧ ∀ id ∈ o.id?, id ∉ earlier.filterMap Obligation.id?

/-- Each obligation of a list holds behind those in front of it. -/
def AllHold (rules : PositionRules) (source : List Char) (os : List Obligation) : Prop :=
  ∀ earlier o later, os = earlier ++ o :: later → o.Holds rules source earlier

/-- The violation that an obligation is reported as. -/
inductive Reports (rules : PositionRules) (source : List Char) : Obligation → Violation → Prop
  | pear {n p : Node} (hpear : n.pear = some p) :
    Reports rules source (.pear n) (.pearNotEndTag n.name n.token.startOffset p.kind)
  | identity (t : Token) :
    Reports rules source (.identity t) (.duplicateToken t.id t.startOffset)
  | length (t : Token) :
    Reports rules source (.length t)
      (.offsetLength t.id t.startOffset t.endOffset (Text.unitLen t.raw))
  | text {t : Token} {expected : List Char}
      (hslice : slice source t.startOffset t.endOffset = .ok expected) :
    Reports rules source (.text t)
      (.rawMismatch t.id t.startOffset t.endOffset t.raw expected)
  | edge (t : Token) (e : Edge) :
    Reports rules source (.edge t e)
      (.position t.id e (t.offsetAt e) (t.posAt e) (rules.position source (t.offsetAt e)))

/-- The offset of what an obligation is about. -/
def offset : Obligation → UInt32
  | pear n => n.token.startOffset
  | identity t | length t | text t => t.startOffset
  | edge t e => t.offsetAt e

section

variable {rules : PositionRules} {source : List Char}

/-- There is one way to report an obligation. -/
theorem Reports.unique {o : Obligation} {v w : Violation} (hv : o.Reports rules source v)
    (hw : o.Reports rules source w) : v = w := by
  cases hv with
  | pear hp =>
    cases hw with
    | pear hq => rw [Option.some.inj (hp.symm.trans hq)]
  | text hs =>
    cases hw with
    | text ht => rw [Except.ok.inj (hs.symm.trans ht)]
  | identity | length | edge => cases hw; rfl

/-- Whether the check of an obligation cannot fault: a text is looked up between offsets that are
in order. -/
def Safe : Obligation → Prop
  | text t => t.startOffset ≤ t.endOffset
  | pear _ | identity _ | length _ | edge .. => True

/-- The check of an obligation that does not hold reports it. -/
theorem exists_reports {o : Obligation} {seen : List TokenId} (hsafe : o.Safe)
    (hfails : ¬(o.Met rules source ∧ ∀ id ∈ o.id?, id ∉ seen)) :
    ∃ v, o.Reports rules source v ∧ o.check rules source seen = .error (.error v) := by
  have hunless {b : Bool} (v : Violation) (hb : ¬b = true) :
      (do .unless b v; return seen : Checked (List TokenId)) = .error (.error v) := by
    rw [Bool.eq_false_iff.mpr hb]
    rfl
  cases o with
  | pear n =>
    have hmet : ¬∀ p, n.pear = some p → p.kind = .endTag := fun h => hfails ⟨h, by simp [id?]⟩
    push Not at hmet
    obtain ⟨p, hp, hkind⟩ := hmet
    refine ⟨_, .pear hp, ?_⟩
    rw [check, Node.checkPear, hp]
    exact hunless _ (by simpa [NodeKind.isEndTag] using hkind)
  | identity t =>
    have hseen : t.id ∈ seen := by simpa [Met, id?] using hfails
    exact ⟨_, .identity t, if_pos hseen⟩
  | length t =>
    refine ⟨_, .length t, hunless _ fun hwell => hfails ⟨?_, by simp [id?]⟩⟩
    simpa [Token.wellFormed, Met] using hwell
  | text t =>
    have hslice : slice source t.startOffset t.endOffset = .ok _ := slice_of_le hsafe
    refine ⟨_, .text hslice, ?_⟩
    rw [check, hslice]
    refine hunless _ fun heq => hfails ⟨?_, by simp [id?]⟩
    rw [Met, hslice, of_decide_eq_true heq]
  | edge t e =>
    refine ⟨_, .edge t e, hunless _ fun heq => hfails ⟨?_, by simp [id?]⟩⟩
    simpa [Met] using heq

/-! ## Lists that hold -/

theorem allHold_nil : AllHold rules source [] := by
  intro earlier o later h
  simp at h

theorem allHold_append_singleton_iff {os : List Obligation} {o : Obligation} :
    AllHold rules source (os ++ [o]) ↔ AllHold rules source os ∧ o.Holds rules source os := by
  constructor
  · intro h
    refine ⟨fun earlier p later hos => ?_, h os o [] rfl⟩
    exact h earlier p (later ++ [o]) (by rw [hos]; simp)
  · rintro ⟨hos, ho⟩ earlier p later hsplit
    rcases List.eq_nil_or_concat' later with rfl | ⟨mid, q, rfl⟩
    · obtain ⟨rfl, hp⟩ := List.append_inj' hsplit rfl
      rw [← List.singleton_inj.mp hp]
      exact ho
    · refine hos earlier p mid ?_
      rw [← List.cons_append, ← List.append_assoc] at hsplit
      exact (List.append_inj' hsplit rfl).1

/-- A list holds when all of it is met and no identity comes twice. -/
theorem allHold_iff {os : List Obligation} :
    AllHold rules source os ↔
      (∀ o ∈ os, o.Met rules source) ∧ (os.filterMap Obligation.id?).Nodup := by
  induction os using List.reverseRecOn with
  | nil => simp [allHold_nil]
  | append_singleton os o ih =>
    rw [allHold_append_singleton_iff, ih, Holds, List.forall_mem_append, List.filterMap_append,
      List.nodup_append']
    cases hid : o.id? with
    | none => simp [hid, and_right_comm]
    | some id => simp [hid, and_and_and_comm]

end

end Obligation

section

variable {rules : PositionRules} {source : List Char}

/-! ## The end of a run -/

/-- A run passes a list exactly when the list holds. -/
theorem checkObligations_eq_ok_iff_allHold {os : List Obligation} {ids : List TokenId} :
    checkObligations rules source [] os = .ok ids ↔
      Obligation.AllHold rules source os ∧ ids = (os.filterMap Obligation.id?).reverse := by
  rw [checkObligations_eq_ok_iff, Obligation.allHold_iff]
  simp [and_assoc]

/-- A run that fails ends at the first obligation whose check fails. -/
theorem exists_of_checkObligations_eq_error {failure : Failure Violation} :
    ∀ {os : List Obligation} {seen : List TokenId},
      checkObligations rules source seen os = .error failure →
        ∃ earlier o later ids, os = earlier ++ o :: later ∧
          checkObligations rules source seen earlier = .ok ids ∧
          o.check rules source ids = .error failure
  | [], seen, h => by cases h
  | o :: os, seen, h => by
    rw [checkObligations] at h
    cases hcheck : o.check rules source seen with
    | error _ =>
      rw [hcheck] at h
      exact ⟨[], o, os, seen, rfl, rfl, hcheck.trans h⟩
    | ok ids =>
      rw [hcheck] at h
      obtain ⟨earlier, p, later, ids', rfl, hpass, hfails⟩ :=
        exists_of_checkObligations_eq_error h
      refine ⟨o :: earlier, p, later, ids', rfl, ?_, hfails⟩
      rw [checkObligations, hcheck]
      exact hpass

/-! ## Lists in which every look-up is safe -/

/-- In a list, each text is looked up behind the check of its offsets. -/
def Guarded (os : List Obligation) : Prop :=
  ∀ earlier t later, os = earlier ++ .text t :: later → .length t ∈ earlier

theorem guarded_nil : Guarded [] := by
  intro earlier t later h
  simp at h

theorem guarded_singleton {o : Obligation} (h : ∀ t, o ≠ .text t) : Guarded [o] := by
  intro earlier t later hsplit
  have hmem : Obligation.text t ∈ [o] := hsplit ▸ by simp
  exact absurd (List.mem_singleton.mp hmem).symm (h t)

theorem guarded_append {os os' : List Obligation} (h : Guarded os) (h' : Guarded os') :
    Guarded (os ++ os') := by
  intro earlier t later hsplit
  rcases List.append_eq_append_iff.mp hsplit with ⟨mid, rfl, hmid⟩ | ⟨mid, rfl, hmid⟩
  · exact List.mem_append_right _ (h' mid t later hmid)
  · cases mid with
    | nil => exact absurd (h' [] t later hmid.symm) List.not_mem_nil
    | cons o mid =>
      obtain ⟨rfl, -⟩ := List.cons.inj hmid
      exact h earlier t mid rfl

theorem guarded_flatMap {α : Type} {f : α → List Obligation} :
    ∀ {l : List α}, (∀ a ∈ l, Guarded (f a)) → Guarded (l.flatMap f)
  | [], _ => guarded_nil
  | a :: l, h => by
    rw [List.forall_mem_cons] at h
    rw [List.flatMap_cons]
    exact guarded_append h.1 (guarded_flatMap h.2)

theorem Token.guarded_obligations (t : Token) : Guarded t.obligations := by
  intro earlier u later hsplit
  have hmem : Obligation.text u ∈ t.obligations := hsplit ▸ by simp
  have hu : u = t := by simpa [Token.obligations] using hmem
  rcases earlier with _ | ⟨o, _ | ⟨o', earlier⟩⟩
  · simp [Token.obligations] at hsplit
  · simp [Token.obligations] at hsplit
  · simp only [Token.obligations, List.cons_append, List.cons.injEq] at hsplit
    obtain ⟨-, rfl, -⟩ := hsplit
    simp [hu]

theorem Node.guarded_obligations (n : Node) : Guarded n.obligations := by
  have hpear : Guarded [.pear n] := guarded_singleton fun _ h => nomatch h
  refine guarded_append hpear (guarded_append ?_ (guarded_flatMap fun t _ => t.guarded_obligations))
  split
  · exact guarded_singleton fun _ h => nomatch h
  · exact n.token.guarded_obligations

theorem guarded_obligationsAll (nodes : List Node) : Guarded (Node.obligationsAll nodes) :=
  guarded_flatMap fun n _ => n.guarded_obligations

/-- Behind a list that holds, the look-up of a text is safe. -/
theorem Guarded.safe {earlier later : List Obligation} {o : Obligation}
    (h : Guarded (earlier ++ o :: later)) (hall : Obligation.AllHold rules source earlier) :
    o.Safe := by
  cases o with
  | text t =>
    have hlength := h earlier t later rfl
    exact ((Obligation.allHold_iff.mp hall).1 _ hlength).1
  | pear _ | identity _ | length _ | edge _ _ => trivial

/-! ## The first obligation that does not hold -/

theorem Obligation.holds_iff_reverse {earlier : List Obligation} {o : Obligation} :
    o.Holds rules source earlier ↔
      o.Met rules source ∧ ∀ id ∈ o.id?, id ∉ (earlier.filterMap Obligation.id?).reverse := by
  simp only [Obligation.Holds, List.mem_reverse]

/-- A run along a list in which every look-up is safe reports the first obligation that does not
hold. -/
theorem Guarded.checkObligations_eq_error_iff {os : List Obligation} (h : Guarded os)
    {failure : Failure Violation} :
    checkObligations rules source [] os = .error failure ↔
      ∃ earlier o later v, os = earlier ++ o :: later ∧
        Obligation.AllHold rules source earlier ∧ ¬o.Holds rules source earlier ∧
        o.Reports rules source v ∧ failure = .error v := by
  constructor
  · intro herror
    obtain ⟨earlier, o, later, ids, rfl, hpass, hfails⟩ :=
      exists_of_checkObligations_eq_error herror
    obtain ⟨hall, rfl⟩ := checkObligations_eq_ok_iff_allHold.mp hpass
    have hnot : ¬o.Holds rules source earlier := by
      rw [Obligation.holds_iff_reverse]
      rintro ⟨hmet, hnew⟩
      rw [Obligation.check_eq_ok_iff.mpr ⟨hmet, hnew, rfl⟩] at hfails
      cases hfails
    obtain ⟨v, hreports, hcheck⟩ := Obligation.exists_reports (h.safe hall)
      (mt Obligation.holds_iff_reverse.mpr hnot)
    rw [hcheck] at hfails
    exact ⟨earlier, o, later, v, rfl, hall, hnot, hreports, (Except.error.inj hfails).symm⟩
  · rintro ⟨earlier, o, later, v, rfl, hall, hnot, hreports, rfl⟩
    have hpass := checkObligations_eq_ok_iff_allHold.mpr ⟨hall, rfl⟩
    obtain ⟨w, hreports', hcheck⟩ := Obligation.exists_reports (h.safe hall)
      (mt Obligation.holds_iff_reverse.mpr hnot)
    rw [checkObligations_append, hpass, Except.bind, checkObligations, hcheck,
      hreports.unique hreports']
    rfl

/-- A check that does not pass reports a violation. -/
theorem exists_violation_of_ne {nodes : List Node}
    (h : checkNodes rules source nodes ≠ .ok ()) :
    ∃ v, checkNodes rules source nodes = .error (.error v) := by
  rw [checkNodes_eq] at h ⊢
  cases hrun : checkObligations rules source [] (Node.obligationsAll nodes) with
  | ok ids => exact absurd (by rw [hrun]; rfl) h
  | error failure =>
    obtain ⟨-, -, -, v, -, -, -, -, rfl⟩ :=
      (guarded_obligationsAll nodes).checkObligations_eq_error_iff.mp hrun
    exact ⟨v, rfl⟩

end

end MarkupTree
