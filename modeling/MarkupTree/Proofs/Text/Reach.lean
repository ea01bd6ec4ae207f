import MarkupTree.Proofs.Text.Cut
import Mathlib.Data.List.Infix

/-!
# Cutting a text at any offset

An offset need not be the length of a leading part: it may stand between the two units of a
character, or behind the end. The text in front of the cut is then the shortest leading part that
reaches the offset, or all of the text when none does. There is one such part, and a greater offset
has no shorter one.

* `before_eq_iff` — what stands in front of a cut
* `before_prefix_before` — cuts are in the order of their offsets
* `before_of_lead`, `before_congr` — a cut depends only on the text up to the offset
* `before_eq_append_of_slice` — a slice is what one cut has more than another
* `CutsAt.splits_iff` — an offset splits a character exactly when the cut is one unit behind it
-/

namespace MarkupTree

namespace Text

theorem unitWidth_toNat_le (c : Char) : (unitWidth c).toNat ≤ 2 := by
  rcases unitWidth_eq c with h | h
  · rw [h]; decide
  · rw [h]; decide

@[simp] theorem unitCount_singleton (c : Char) : unitCount [c] = (unitWidth c).toNat := rfl

theorem unitCount_eq_zero_iff {s : List Char} : unitCount s = 0 ↔ s = [] := by
  cases s with
  | nil => simp [unitCount]
  | cons c s =>
    have := unitWidth_toNat_pos c
    simp only [unitCount, reduceCtorEq, iff_false]
    omega

theorem unitCount_mono {p s : List Char} (h : p <+: s) : unitCount p ≤ unitCount s := by
  obtain ⟨r, rfl⟩ := h
  rw [unitCount_append]
  exact Nat.le_add_right _ _

/-- Leading parts of one text are told apart by their units. -/
theorem prefix_iff_unitCount_le {s p q : List Char} (hp : p <+: s) (hq : q <+: s) :
    p <+: q ↔ unitCount p ≤ unitCount q := by
  constructor
  · exact unitCount_mono
  · intro hle
    rcases List.prefix_or_prefix_of_prefix hp hq with hpq | ⟨r, rfl⟩
    · exact hpq
    · rw [unitCount_append] at hle
      have hr : r = [] := unitCount_eq_zero_iff.mp (by omega)
      rw [hr, List.append_nil]

theorem eq_of_unitCount_eq {s p q : List Char} (hp : p <+: s) (hq : q <+: s)
    (h : unitCount p = unitCount q) : p = q :=
  ((prefix_iff_unitCount_le hp hq).mpr (Nat.le_of_eq h)).eq_of_length_le
    ((prefix_iff_unitCount_le hq hp).mpr (Nat.le_of_eq h.symm)).length_le

/-! ## The shortest part that reaches an offset -/

/-- A leading part of a text that reaches an offset, or all of the text, and no shorter part
does. -/
structure CutsAt (s : List Char) (offset : Nat) (p : List Char) : Prop where
  leads : p <+: s
  reaches : p = s ∨ offset ≤ unitCount p
  least : ∀ q c, q ++ [c] <+: p → unitCount q < offset

theorem CutsAt.nil (offset : Nat) : CutsAt [] offset [] where
  leads := List.prefix_rfl
  reaches := Or.inl rfl
  least := by simp

theorem CutsAt.zero (s : List Char) : CutsAt s 0 [] where
  leads := List.nil_prefix
  reaches := Or.inr (Nat.zero_le _)
  least := by simp

/-- Past the first character, the cut is found in the rest. -/
theorem CutsAt.cons {c : Char} {s p : List Char} {offset : Nat} (hpos : 0 < offset)
    (h : CutsAt s (offset - (unitWidth c).toNat) p) : CutsAt (c :: s) offset (c :: p) where
  leads := List.cons_prefix_cons.mpr ⟨rfl, h.leads⟩
  reaches := by
    rcases h.reaches with rfl | hle
    · exact Or.inl rfl
    · rw [unitCount]
      exact Or.inr (by omega)
  least := by
    intro q d hq
    cases q with
    | nil => exact hpos
    | cons e q =>
      obtain ⟨rfl, hrest⟩ := List.cons_prefix_cons.mp hq
      have hlt := h.least q d hrest
      rw [unitCount]
      omega

/-- The part up to a greater offset is not shorter. -/
theorem CutsAt.prefix_of_le {s p q : List Char} {o o' : Nat} (hp : CutsAt s o p)
    (hq : CutsAt s o' q) (h : o ≤ o') : p <+: q := by
  rcases List.prefix_or_prefix_of_prefix hp.leads hq.leads with hpq | ⟨r, rfl⟩
  · exact hpq
  · cases r with
    | nil => rw [List.append_nil]
    | cons c r =>
      -- `q` is shorter, so it would have to reach the offset of `p`
      have hlt : unitCount q < o := hp.least q c ⟨r, by simp⟩
      rcases hq.reaches with rfl | hle
      · have hlen := hp.leads.length_le
        rw [List.length_append, List.length_cons] at hlen
        omega
      · omega

theorem CutsAt.unique {s p q : List Char} {o : Nat} (hp : CutsAt s o p) (hq : CutsAt s o q) :
    p = q :=
  (hp.prefix_of_le hq (Nat.le_refl o)).eq_of_length_le
    (hq.prefix_of_le hp (Nat.le_refl o)).length_le

/-- A part that reaches an offset is cut off there in every text that it leads. -/
theorem CutsAt.of_lead {lead s p : List Char} {o : Nat} (h : CutsAt lead o p) (hs : lead <+: s)
    (ho : o ≤ unitCount lead) : CutsAt s o p where
  leads := h.leads.trans hs
  reaches := by
    rcases h.reaches with rfl | hle
    · exact Or.inr ho
    · exact Or.inr hle
  least := h.least

/-- An offset is rounded up by one unit at most. -/
theorem CutsAt.unitCount_le {s p : List Char} {o : Nat} (h : CutsAt s o p) :
    unitCount p ≤ o + 1 := by
  rcases List.eq_nil_or_concat' p with rfl | ⟨q, c, rfl⟩
  · exact Nat.zero_le _
  · have hlt := h.least q c List.prefix_rfl
    have hwidth := unitWidth_toNat_le c
    rw [unitCount_append, unitCount_singleton]
    omega

/-! ## The text in front of a cut -/

theorem cutsAt_charsFrom : ∀ (s : List Char) (units offset : UInt32),
    units.toNat + unitCount s < UInt32.size →
      CutsAt s (offset.toNat - units.toNat) (s.take (charsFrom units offset s))
  | [], units, offset, _ => by
    rw [charsFrom, List.take_nil]
    exact .nil _
  | c :: s, units, offset, h => by
    rw [unitCount] at h
    rw [charsFrom]
    split
    · next hle =>
      rw [Nat.sub_eq_zero_of_le (UInt32.le_iff_toNat_le.mp hle)]
      exact .zero _
    · next hlt =>
      have hpos := mt UInt32.le_iff_toNat_le.mpr hlt
      have hstep : (units + unitWidth c).toNat = units.toNat + (unitWidth c).toNat :=
        toNat_add_of_lt (by omega)
      have ih := cutsAt_charsFrom s (units + unitWidth c) offset (by omega)
      rw [hstep, ← Nat.sub_sub] at ih
      exact .cons (by omega) ih

theorem cutsAt_before {s : List Char} (h : unitCount s < UInt32.size) (offset : UInt32) :
    CutsAt s offset.toNat (before s offset) :=
  cutsAt_charsFrom s 0 offset (by simpa using h)

/-- In front of a cut stands the one part that reaches the offset and has none shorter that
does. -/
theorem before_eq_iff {s p : List Char} (h : unitCount s < UInt32.size) {offset : UInt32} :
    before s offset = p ↔ CutsAt s offset.toNat p := by
  constructor
  · rintro rfl
    exact cutsAt_before h offset
  · exact (cutsAt_before h offset).unique

/-- Cuts are in the order of their offsets. -/
theorem before_prefix_before {s : List Char} (h : unitCount s < UInt32.size) {start stop : UInt32}
    (hle : start ≤ stop) : before s start <+: before s stop :=
  (cutsAt_before h start).prefix_of_le (cutsAt_before h stop) (UInt32.le_iff_toNat_le.mp hle)

/-- The cut at an offset that a leading part reaches is found in that part, even if the text goes on
for longer than words can count. -/
theorem charsFrom_of_reached : ∀ (lead rest : List Char) (units offset : UInt32),
    units.toNat + unitCount lead < UInt32.size → offset.toNat ≤ units.toNat + unitCount lead →
      charsFrom units offset (lead ++ rest) = charsFrom units offset lead
  | [], [], _, _, _, _ => rfl
  | [], c :: rest, units, offset, _, hreached => if_pos (UInt32.le_iff_toNat_le.mpr hreached)
  | c :: lead, rest, units, offset, hfits, hreached => by
    rw [unitCount] at hfits hreached
    have hstep : (units + unitWidth c).toNat = units.toNat + (unitWidth c).toNat :=
      toNat_add_of_lt (by omega)
    rw [List.cons_append, charsFrom, charsFrom,
      charsFrom_of_reached lead rest (units + unitWidth c) offset (by omega) (by omega)]

theorem before_of_lead {lead s : List Char} (hfits : unitCount lead < UInt32.size)
    (hs : lead <+: s) {offset : UInt32} (ho : offset.toNat ≤ unitCount lead) :
    before s offset = before lead offset := by
  obtain ⟨rest, rfl⟩ := hs
  have hzero : (0 : UInt32).toNat = 0 := rfl
  have hcut : charsBefore (lead ++ rest) offset = charsBefore lead offset :=
    charsFrom_of_reached lead rest 0 offset (by omega) (by omega)
  rw [before, hcut, List.take_append_of_le_length (charsBefore_le_length lead offset), before]

/-- A cut depends only on the text up to the offset. -/
theorem before_congr {lead s t : List Char} (hs : unitCount s < UInt32.size)
    (ht : unitCount t < UInt32.size) (hls : lead <+: s) (hlt : lead <+: t) {offset : UInt32}
    (ho : offset.toNat ≤ unitCount lead) : before s offset = before t offset := by
  have hlead := Nat.lt_of_le_of_lt (unitCount_mono hls) hs
  have hcut := cutsAt_before hlead offset
  rw [(before_eq_iff hs).mpr (hcut.of_lead hls ho), (before_eq_iff ht).mpr (hcut.of_lead hlt ho)]

/-! ## Offsets inside a character -/

/-- An offset stands between the two units of a character. -/
def Splits (s : List Char) (offset : Nat) : Prop :=
  ∃ a c b, s = a ++ c :: b ∧ unitWidth c = 2 ∧ offset = unitCount a + 1

/-- Past the end of a text no character is split. -/
theorem Splits.lt_unitCount {s : List Char} {offset : Nat} (h : Splits s offset) :
    offset < unitCount s := by
  obtain ⟨a, c, b, rfl, hwidth, rfl⟩ := h
  have htwo : (unitWidth c).toNat = 2 := by rw [hwidth]; rfl
  rw [unitCount_append, unitCount, htwo]
  omega

/-- The cut inside a character is behind that character. -/
theorem cutsAt_inside (a b : List Char) {c : Char} (hwidth : unitWidth c = 2) :
    CutsAt (a ++ c :: b) (unitCount a + 1) (a ++ [c]) where
  leads := ⟨b, by simp⟩
  reaches := by
    rw [unitCount_append, unitCount_singleton, hwidth]
    exact Or.inr (Nat.add_le_add_left (by decide) _)
  least := by
    intro q d hq
    -- what is shorter than `a` and the character leads `a`
    have hlen := hq.length_le
    have hqa : q <+: a := by
      refine List.prefix_of_prefix_length_le ((List.prefix_append q [d]).trans hq)
        (List.prefix_append a [c]) ?_
      simpa using hlen
    exact Nat.lt_succ_of_le (unitCount_mono hqa)

/-- The cut behind a leading part is at the number of its units. -/
theorem cutsAt_boundary (p r : List Char) : CutsAt (p ++ r) (unitCount p) p where
  leads := List.prefix_append p r
  reaches := Or.inr (Nat.le_refl _)
  least := by
    intro q c hq
    have hmono := unitCount_mono hq
    have hpos := unitWidth_toNat_pos c
    rw [unitCount_append, unitCount_singleton] at hmono
    omega

/-- One unit in front of the end of a leading part, the cut is in front of its last character if that
has one unit, and behind it otherwise. -/
theorem cutsAt_one_short {p : List Char} {c : Char} (r : List Char) {o : Nat}
    (h : o + 1 = unitCount (p ++ [c])) :
    CutsAt (p ++ c :: r) o (if unitWidth c = 1 then p else p ++ [c]) := by
  rw [unitCount_append, unitCount_singleton] at h
  rcases unitWidth_eq c with hwidth | hwidth
  · have hone : (1 : UInt32).toNat = 1 := rfl
    rw [hwidth, hone] at h
    rw [if_pos hwidth, Nat.succ.inj h]
    exact cutsAt_boundary p (c :: r)
  · have htwo : (2 : UInt32).toNat = 2 := rfl
    rw [hwidth, htwo] at h
    rw [if_neg (by rw [hwidth]; decide), Nat.succ.inj h]
    exact cutsAt_inside p r hwidth

/-- An offset splits a character exactly when the cut is one unit behind it. -/
theorem CutsAt.splits_iff {s p : List Char} {o : Nat} (h : CutsAt s o p) :
    Splits s o ↔ unitCount p = o + 1 := by
  constructor
  · rintro ⟨a, c, b, rfl, hwidth, rfl⟩
    rw [h.unique (cutsAt_inside a b hwidth), unitCount_append, unitCount_singleton, hwidth]
    rfl
  · intro hround
    rcases List.eq_nil_or_concat' p with rfl | ⟨q, c, rfl⟩
    · cases hround
    · have hlt := h.least q c List.prefix_rfl
      rw [unitCount_append, unitCount_singleton] at hround
      obtain ⟨b, rfl⟩ := h.leads
      refine ⟨q, c, b, by simp, ?_, ?_⟩
      · rcases unitWidth_eq c with hone | htwo
        · rw [hone] at hround
          have : (1 : UInt32).toNat = 1 := rfl
          omega
        · exact htwo
      · have := unitWidth_toNat_le c
        omega

end Text

/-! ## Slices -/

open Text

/-- A slice is what the cut at its end has more than the cut at its start. -/
theorem before_eq_append_of_slice {source raw : List Char} (h : unitCount source < UInt32.size)
    {start stop : UInt32} (hslice : slice source start stop = .ok raw) :
    before source stop = before source start ++ raw := by
  have hle : start ≤ stop := by
    by_contra hnot
    rw [slice_of_not_le hnot] at hslice
    cases hslice
  rw [slice_of_le hle] at hslice
  obtain ⟨more, hmore⟩ := before_prefix_before h hle
  rw [← Except.ok.inj hslice, ← hmore, ← length_before, List.drop_left]

end MarkupTree
