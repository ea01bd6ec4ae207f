import MarkupTree.Proofs.Text.Encoding
import MarkupTree.Proofs.Text.Reach
import Mathlib.Order.Bounds.Basic

/-!
# Boundaries of characters

Between the two units of a surrogate pair no text can be cut. Where a cut at an offset really is can
be read off the units alone: the offset moves on by one when the unit behind it is the second of a
pair, and an offset past the end is the end.

* `CutsAt.cases` — an offset is past the end, between two characters, or inside one
* `CutsAt.roundUp_eq` — the units in front of a cut end at the offset rounded up
* `CutsAt.isLeast_boundary` — and that is the first boundary that is not in front of the offset
* `unitCount_before`, `IsBoundary.roundUp_eq` — so end the texts in front of all offsets
* `count_encode`, `CutsAt.count_take` — the breaks of a text are its line feed units
-/

namespace MarkupTree.Text

/-! ## Rounding -/

/-- Whether a unit is the second one of a surrogate pair. -/
def isTrailing (u : UInt16) : Bool := 0xDC00 ≤ u && u < 0xE000

/-- An offset moved behind the pair that it splits; one past the end is the end. -/
def roundUp (units : List UInt16) (offset : Nat) : Nat :=
  match units[offset]? with
  | none => units.length
  | some u => if isTrailing u then offset + 1 else offset

/-- A number of units at which a leading part of a text ends. -/
def IsBoundary (s : List Char) (i : Nat) : Prop := ∃ p, p <+: s ∧ (encode p).length = i

/-- Behind the letter, within the pair, behind the pair, and past the end. -/
example : [0, 1, 2, 3, 9].map (roundUp (encode ['a', '😀'])) = [0, 1, 3, 3, 3] := by decide

/-! ## The units of a character -/

theorem isTrailing_iff {u : UInt16} :
    isTrailing u = true ↔ 0xDC00 ≤ u.toNat ∧ u.toNat < 0xE000 := by
  simp only [isTrailing, Bool.and_eq_true, decide_eq_true_eq, UInt16.le_iff_toNat_le,
    UInt16.lt_iff_toNat_lt]
  exact Iff.rfl

theorem ne_feed_of_surrogate {u : UInt16} (h : 0xD800 ≤ u.toNat) : u ≠ 0x0A := by
  rintro rfl
  exact absurd h (by decide)

theorem encode_singleton (c : Char) : encode [c] = encodeChar c := List.append_nil _

/-- A character of the basic plane is one unit, which belongs to no pair and is a line feed only for
a line break. -/
theorem encodeChar_of_width_one {c : Char} (h : unitWidth c = 1) :
    ∃ u, encodeChar c = [u] ∧ isTrailing u = false ∧ (u = 0x0A ↔ c = '\n') := by
  have hnarrow : c.toNat < 0x10000 := by
    by_contra hwide
    rw [unitWidth, if_neg hwide] at h
    exact absurd h (by decide)
  have hvalid : c.toNat < 0xD800 ∨ 0xDFFF < c.toNat ∧ c.toNat < 0x110000 := c.valid
  have hunit : (UInt16.ofNat c.toNat).toNat = c.toNat := UInt16.toNat_ofNat_of_lt' hnarrow
  refine ⟨UInt16.ofNat c.toNat, if_pos hnarrow, ?_, ?_⟩
  · rw [Bool.eq_false_iff, Ne, isTrailing_iff, hunit]
    omega
  · rw [← UInt16.toNat_inj, hunit, ← Char.toNat_inj]
    exact Iff.rfl

/-- Any other character is a surrogate pair, and none of its units is a line feed. -/
theorem encodeChar_of_width_two {c : Char} (h : unitWidth c = 2) :
    ∃ u v, encodeChar c = [u, v] ∧ isTrailing u = false ∧ isTrailing v = true ∧
      u ≠ 0x0A ∧ v ≠ 0x0A := by
  have hwide : ¬c.toNat < 0x10000 := by
    intro hnarrow
    rw [unitWidth, if_pos hnarrow] at h
    exact absurd h (by decide)
  have hvalid : c.toNat < 0xD800 ∨ 0xDFFF < c.toNat ∧ c.toNat < 0x110000 := c.valid
  obtain ⟨n, hn⟩ : ∃ n, n = c.toNat - 0x10000 := ⟨_, rfl⟩
  have hu : (UInt16.ofNat (0xD800 + n / 0x400)).toNat = 0xD800 + n / 0x400 :=
    UInt16.toNat_ofNat_of_lt' (by show _ < 65536; omega)
  have hv : (UInt16.ofNat (0xDC00 + n % 0x400)).toNat = 0xDC00 + n % 0x400 :=
    UInt16.toNat_ofNat_of_lt' (by show _ < 65536; omega)
  refine ⟨_, _, if_neg hwide, ?_, ?_, ?_, ?_⟩
  · rw [← hn, Bool.eq_false_iff, Ne, isTrailing_iff, hu]
    omega
  · rw [← hn, isTrailing_iff, hv]
    omega
  · rw [← hn]
    exact ne_feed_of_surrogate (by omega)
  · rw [← hn]
    exact ne_feed_of_surrogate (by omega)

/-- The first unit of a character is not the second one of a pair. -/
theorem exists_encodeChar_eq_cons (c : Char) :
    ∃ u us, encodeChar c = u :: us ∧ isTrailing u = false := by
  rcases unitWidth_eq c with h | h
  · obtain ⟨u, hu, hfirst, -⟩ := encodeChar_of_width_one h
    exact ⟨u, [], hu, hfirst⟩
  · obtain ⟨u, v, huv, hfirst, -⟩ := encodeChar_of_width_two h
    exact ⟨u, [v], huv, hfirst⟩

/-! ## Where an offset stands -/

/-- An offset is past the end, between two characters, or inside one. -/
theorem CutsAt.cases {s p : List Char} {o : Nat} (h : CutsAt s o p) :
    (p = s ∧ unitCount s ≤ o) ∨ (∃ c r, s = p ++ c :: r ∧ o = unitCount p) ∨
      ∃ q c r, p = q ++ [c] ∧ s = q ++ c :: r ∧ unitWidth c = 2 ∧ o = unitCount q + 1 := by
  by_cases hinside : unitCount p = o + 1
  · obtain ⟨q, c, r, rfl, hwidth, rfl⟩ := h.splits_iff.mpr hinside
    exact Or.inr (Or.inr ⟨q, c, r, h.unique (cutsAt_inside q r hwidth), rfl, hwidth, rfl⟩)
  · have hround := h.unitCount_le
    obtain ⟨r, rfl⟩ := h.leads
    cases r with
    | nil =>
      rw [List.append_nil]
      exact Or.inl ⟨rfl, by omega⟩
    | cons c r =>
      have hreach : o ≤ unitCount p := h.reaches.resolve_left (by simp)
      exact Or.inr (Or.inl ⟨c, r, rfl, by omega⟩)

/-- The first unit behind a leading part. -/
theorem getElem?_encode_append (p : List Char) {c : Char} (r : List Char) {u : UInt16}
    {us : List UInt16} (h : encodeChar c = u :: us) :
    (encode (p ++ c :: r))[unitCount p]? = some u := by
  rw [encode_append, ← length_encode, List.getElem?_append_right (Nat.le_refl _), Nat.sub_self,
    encode, List.flatMap_cons, h]
  rfl

/-- The units in front of a cut end at its offset rounded up. -/
theorem CutsAt.roundUp_eq {s p : List Char} {o : Nat} (h : CutsAt s o p) :
    roundUp (encode s) o = unitCount p := by
  rcases h.cases with ⟨rfl, hend⟩ | ⟨c, r, rfl, rfl⟩ | ⟨q, c, r, rfl, rfl, hwidth, rfl⟩
  · rw [roundUp, List.getElem?_eq_none (by rw [length_encode]; exact hend)]
    exact length_encode p
  · obtain ⟨u, us, hu, hfirst⟩ := exists_encodeChar_eq_cons c
    rw [roundUp, getElem?_encode_append p r hu]
    simp [hfirst]
  · obtain ⟨u, v, huv, -, hsecond, -⟩ := encodeChar_of_width_two hwidth
    have hunit : (encode (q ++ c :: r))[unitCount q + 1]? = some v := by
      rw [encode_append, ← length_encode, List.getElem?_append_right (Nat.le_add_right _ _),
        Nat.add_sub_cancel_left, encode, List.flatMap_cons, huv]
      rfl
    rw [roundUp, hunit, unitCount_append, unitCount_singleton, hwidth]
    simp [hsecond]

/-- What stands in front of a cut ends at the first boundary that is not in front of the offset. -/
theorem CutsAt.isLeast_boundary {s p : List Char} {o : Nat} (h : CutsAt s o p)
    (ho : o ≤ unitCount s) : IsLeast {i | IsBoundary s i ∧ o ≤ i} (unitCount p) := by
  constructor
  · refine ⟨⟨p, h.leads, length_encode p⟩, ?_⟩
    rcases h.reaches with rfl | hreach
    · exact ho
    · exact hreach
  · rintro i ⟨⟨q, hq, rfl⟩, hi⟩
    rw [length_encode] at hi ⊢
    rcases List.prefix_or_prefix_of_prefix h.leads hq with hpq | ⟨r, rfl⟩
    · exact unitCount_mono hpq
    · cases r with
      | nil => rw [List.append_nil]
      | cons c r =>
        -- a part shorter than the cut does not reach the offset
        have hshort : unitCount q < o := h.least q c ⟨r, by simp⟩
        omega

/-- What stands in front of an offset ends at the offset rounded up. -/
theorem unitCount_before {s : List Char} (hfits : unitCount s < UInt32.size) (offset : UInt32) :
    unitCount (before s offset) = roundUp (encode s) offset.toNat :=
  (cutsAt_before hfits offset).roundUp_eq.symm

/-- At a boundary nothing is rounded. -/
theorem IsBoundary.roundUp_eq {s : List Char} {i : Nat} (h : IsBoundary s i) :
    roundUp (encode s) i = i := by
  obtain ⟨p, ⟨r, rfl⟩, rfl⟩ := h
  rw [length_encode]
  exact (cutsAt_boundary p r).roundUp_eq

/-! ## Line feeds -/

theorem count_encodeChar (c : Char) :
    (encodeChar c).count 0x0A = if c = '\n' then 1 else 0 := by
  rcases unitWidth_eq c with h | h
  · obtain ⟨u, hu, -, hfeed⟩ := encodeChar_of_width_one h
    rw [hu, List.count_singleton]
    simp [hfeed]
  · obtain ⟨u, v, huv, -, -, hu, hv⟩ := encodeChar_of_width_two h
    have hc : c ≠ '\n' := by
      rintro rfl
      exact absurd h (by decide)
    rw [huv, if_neg hc]
    simp [hu, hv]

/-- A text has as many line breaks as its units have line feeds. -/
theorem count_encode : ∀ s : List Char, (encode s).count 0x0A = breakCount s
  | [] => rfl
  | c :: s => by
    rw [encode, List.flatMap_cons, List.count_append, count_encodeChar, ← encode, count_encode s,
      breakCount, breakCount, List.count_cons, Nat.add_comm]
    simp

theorem feed_mem_encode_iff {s : List Char} : 0x0A ∈ encode s ↔ '\n' ∈ s := by
  rw [← List.count_pos_iff, count_encode, breakCount, List.count_pos_iff]

/-- Inside a pair the units in front of an offset have the same line feeds as those in front of the
cut. -/
theorem CutsAt.count_take {s p : List Char} {o : Nat} (h : CutsAt s o p) :
    ((encode s).take o).count 0x0A = breakCount p := by
  rcases h.cases with ⟨rfl, hend⟩ | ⟨c, r, rfl, rfl⟩ | ⟨q, c, r, rfl, rfl, hwidth, rfl⟩
  · rw [List.take_of_length_le (by rw [length_encode]; exact hend), count_encode]
  · rw [encode_append, ← length_encode, List.take_left, count_encode]
  · obtain ⟨u, v, huv, -, -, hu, hv⟩ := encodeChar_of_width_two hwidth
    have hunits : encode (q ++ c :: r) = (encode q ++ [u]) ++ v :: encode r := by
      rw [encode_append, encode, encode, List.flatMap_cons, huv]
      simp [encode]
    have hlen : unitCount q + 1 = (encode q ++ [u]).length := by
      rw [List.length_append, length_encode, List.length_singleton]
    rw [hunits, hlen, List.take_left, ← count_encode (q ++ [c]), encode_append, encode_singleton,
      huv, List.count_append, List.count_append]
    simp [hu, hv]

end MarkupTree.Text
