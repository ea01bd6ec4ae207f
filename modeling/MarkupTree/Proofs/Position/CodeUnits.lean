import MarkupTree.Proofs.Text.Boundary

/-!
# Lines and columns in code units

The functions on offsets read the characters in front of a cut and count with words of 32 bits. Here
they are said of the code units of the source alone, where the offset is a number and no cut is made:
a slice is a run of units, a line is the number of line feeds in front, and a column is the distance
to the last of them.

* `toNat_lineAt`, `toNat_colAt`, `toNat_lineStart` — in a source that fits, no count wraps
* `exists_slice_eq`, `exists_slice_append` — where a slice stands, and slices that meet
* `add_unitCount_le_max`, `toNat_add_unitLen` — how far the text of a slice leads
* `offsetsCountUnits` — all of them in code units
-/

namespace MarkupTree

open Text

namespace Text

/-! ## Lengths of lines -/

theorem length_le_unitCount : ∀ s : List Char, s.length ≤ unitCount s
  | [] => Nat.le_refl 0
  | c :: s => by
    have hpos := unitWidth_toNat_pos c
    have ih := length_le_unitCount s
    rw [List.length_cons, unitCount]
    omega

theorem breakCount_le_unitCount (s : List Char) : breakCount s ≤ unitCount s :=
  Nat.le_trans List.count_le_length (length_le_unitCount s)

theorem unitCount_throughBreak_add (s : List Char) :
    unitCount (throughBreak s) + unitCount (lastLine s) = unitCount s := by
  rw [← unitCount_append, throughBreak_append_lastLine]

/-- The break in front of the last line has a unit of its own. -/
theorem unitCount_lastLine_lt {s : List Char} (h : '\n' ∈ s) :
    unitCount (lastLine s) < unitCount s := by
  have hsum := unitCount_throughBreak_add s
  have hlines : throughBreak s ≠ [] := by
    intro hnone
    have hall := throughBreak_append_lastLine s
    rw [hnone, List.nil_append] at hall
    exact not_mem_lastLine s (hall.symm ▸ h)
  have hpos := mt unitCount_eq_zero_iff.mp hlines
  omega

/-- The complete lines of a text end with a break. -/
theorem throughBreak_eq (s : List Char) :
    throughBreak s = [] ∨ ∃ p, throughBreak s = p ++ ['\n'] := by
  have hhead := List.head?_dropWhile_not (· != '\n') s.reverse
  rw [throughBreak]
  cases h : s.reverse.dropWhile (· != '\n') with
  | nil => exact Or.inl rfl
  | cons c r =>
    rw [h] at hhead
    have hc : c = '\n' := by simpa using hhead
    exact Or.inr ⟨r.reverse, by rw [List.reverse_cons, hc]⟩

/-- In a text that begins with `s`, the last line of `s` starts behind the last line feed of `s`, or
at the start of the text. -/
theorem isGreatest_throughBreak (s behind : List Char) :
    IsGreatest {i | i ≤ unitCount s ∧ (i = 0 ∨ (encode (s ++ behind))[i - 1]? = some 0x0A)}
      (unitCount (throughBreak s)) := by
  have hsum := unitCount_throughBreak_add s
  have hunits : encode (s ++ behind)
      = encode (throughBreak s) ++ encode (lastLine s) ++ encode behind := by
    rw [← encode_append, throughBreak_append_lastLine, ← encode_append]
  constructor
  · refine ⟨by omega, ?_⟩
    rcases throughBreak_eq s with hnone | ⟨p, hp⟩
    · exact Or.inl (by rw [hnone]; rfl)
    · -- the unit of the break that the complete lines end with
      have hbreak : s ++ behind = p ++ '\n' :: (lastLine s ++ behind) := by
        conv_lhs => rw [← throughBreak_append_lastLine s, hp]
        simp
      right
      rw [hbreak, hp, unitCount_append]
      exact getElem?_encode_append p (lastLine s ++ behind) rfl
  · rintro i ⟨hi, hfeed⟩
    by_contra hlate
    have hfeed := hfeed.resolve_left (by omega)
    -- a line feed behind the complete lines would belong to the last line
    rw [hunits, List.getElem?_append_left, List.getElem?_append_right] at hfeed
    · exact not_mem_lastLine s (feed_mem_encode_iff.mp (List.mem_of_getElem? hfeed))
    · rw [length_encode]
      omega
    · rw [List.length_append, length_encode, length_encode]
      omega

end Text

section

variable {source : List Char} (hlen : unitCount source < UInt32.size - 1)

include hlen

/-! ## Counts that do not wrap -/

theorem unitCount_before_lt (offset : UInt32) :
    unitCount (before source offset) < UInt32.size - 1 :=
  Nat.lt_of_le_of_lt (unitCount_mono (before_leads_source source offset)) hlen

theorem toNat_lineAt (offset : UInt32) :
    (lineAt source offset).toNat = breakCount (before source offset) + 1 := by
  have hfits := unitCount_before_lt hlen offset
  have hcount := breakCount_le_unitCount (before source offset)
  have hbreaks : (UInt32.ofNat (breakCount (before source offset))).toNat
      = breakCount (before source offset) := UInt32.toNat_ofNat_of_lt' (by omega)
  have hone : (1 : UInt32).toNat = 1 := rfl
  rw [lineAt, toNat_add_of_lt (by omega), hbreaks, hone]

theorem toNat_lineStart (offset : UInt32) :
    (lineStart source offset).toNat = unitCount (throughBreak (before source offset)) := by
  have hfits := unitCount_before_lt hlen offset
  have hsum := unitCount_throughBreak_add (before source offset)
  exact toNat_unitLen (by omega)

theorem toNat_colAt (offset : UInt32) :
    (colAt source offset).toNat = unitCount (lastLine (before source offset)) + 1 := by
  have hfits := unitCount_before_lt hlen offset
  have hsum := unitCount_throughBreak_add (before source offset)
  have hline := toNat_unitLen (s := lastLine (before source offset)) (by omega)
  have hone : (1 : UInt32).toNat = 1 := rfl
  rw [colAt, toNat_add_of_lt (by omega), hline, hone]

end

/-! ## All functions on offsets -/

/-- What the functions on offsets are, in the code units of a source. -/
structure OffsetsCountUnits (source : List Char) : Prop where
  length : (unitLen source).toNat = (encode source).length
  /-- An offset past the end is rounded to the end. -/
  past : ∀ o : UInt32, (encode source).length ≤ o.toNat →
    roundUp (encode source) o.toNat = (encode source).length
  /-- Any other is rounded up to a boundary. -/
  rounded : ∀ o : UInt32, o.toNat < (encode source).length →
    IsLeast {i | IsBoundary source i ∧ o.toNat ≤ i} (roundUp (encode source) o.toNat)
  /-- A slice has the units between its offsets rounded up. -/
  between : ∀ a b : UInt32, a ≤ b → ∃ text, slice source a b = .ok text ∧
    encode text = unitsBetween source (roundUp (encode source) a.toNat)
      (roundUp (encode source) b.toNat)
  /-- Slices that meet are joined to a slice. -/
  joined : ∀ a b c : UInt32, a ≤ b → b ≤ c → ∃ s t, slice source a b = .ok s ∧
    slice source b c = .ok t ∧ slice source a c = .ok (s ++ t)
  /-- For the line of an offset it does not matter whether the offset is rounded. -/
  line : ∀ o : UInt32,
    (lineAt source o).toNat = 1 + ((encode source).take o.toNat).count 0x0A
  /-- A line starts behind the last line feed in front of the offset rounded up, or at the start of
  the source. -/
  start : ∀ o : UInt32,
    IsGreatest {i | i ≤ roundUp (encode source) o.toNat ∧
        (i = 0 ∨ (encode source)[i - 1]? = some 0x0A)}
      (lineStart source o).toNat
  column : ∀ o : UInt32, (colAt source o).toNat =
    roundUp (encode source) o.toNat - (lineStart source o).toNat + 1

/-- The text of a slice stands between the cuts at its ends. -/
theorem exists_slice_eq {source : List Char} (hlen : unitCount source < UInt32.size)
    {start stop : UInt32} (h : start ≤ stop) : ∃ text behind, slice source start stop = .ok text ∧
      before source stop = before source start ++ text ∧
        source = before source start ++ text ++ behind := by
  have hcut := before_eq_append_of_slice hlen (slice_of_le h)
  obtain ⟨behind, hsource⟩ := before_leads_source source stop
  exact ⟨_, behind, slice_of_le h, hcut, by rw [← hcut, hsource]⟩

/-- The text behind a cut ends inside the source. -/
theorem unitCount_before_add_le {source text : List Char} {start stop : UInt32}
    (hcut : before source stop = before source start ++ text) :
    unitCount (before source start) + unitCount text ≤ unitCount source := by
  rw [← unitCount_append, ← hcut]
  exact unitCount_mono (before_leads_source source stop)

/-- The text behind a cut leads no further than to the end of the source, or to the offset of the cut
when that is past the end. -/
theorem add_unitCount_le_max {source text : List Char} (hlen : unitCount source < UInt32.size)
    {start stop : UInt32} (hcut : before source stop = before source start ++ text) :
    start.toNat + unitCount text ≤ max start.toNat (unitCount source) := by
  have hlead := unitCount_before_add_le hcut
  rcases (cutsAt_before hlen start).reaches with hall | hreaches
  · -- behind a cut at the end of the source there is no text
    rw [hall] at hlead
    omega
  · omega

/-- So the offset behind that text needs no check. -/
theorem toNat_add_unitLen {source text : List Char} (hlen : unitCount source < UInt32.size)
    {start stop : UInt32} (hcut : before source stop = before source start ++ text) :
    (start + unitLen text).toNat = start.toNat + unitCount text := by
  have hsum := add_unitCount_le_max hlen hcut
  have hstart := start.toNat_lt_size
  have htext : (unitLen text).toNat = unitCount text := toNat_unitLen (by omega)
  rw [toNat_add_of_lt (by omega), htext]

/-- Slices that meet are joined to a slice. -/
theorem exists_slice_append {source : List Char} (hlen : unitCount source < UInt32.size)
    {a b c : UInt32} (hab : a ≤ b) (hbc : b ≤ c) : ∃ s t, slice source a b = .ok s ∧
      slice source b c = .ok t ∧ slice source a c = .ok (s ++ t) := by
  obtain ⟨s, -, hs, hcut, -⟩ := exists_slice_eq hlen hab
  obtain ⟨t, -, ht, hcut', -⟩ := exists_slice_eq hlen hbc
  obtain ⟨u, -, hu, hcut'', -⟩ := exists_slice_eq hlen (UInt32.le_trans hab hbc)
  have hjoin : u = s ++ t := by
    rw [hcut', hcut, List.append_assoc] at hcut''
    exact (List.append_cancel_left hcut'').symm
  exact ⟨s, t, hs, ht, hjoin ▸ hu⟩

/-- In a source that fits, the functions on offsets count its code units. -/
theorem offsetsCountUnits {source : List Char}
    (hlen : (encode source).length < UInt32.size - 1) : OffsetsCountUnits source := by
  rw [length_encode] at hlen
  have hfits : unitCount source < UInt32.size := by omega
  have hround (o : UInt32) : roundUp (encode source) o.toNat = unitCount (before source o) :=
    (cutsAt_before hfits o).roundUp_eq
  constructor
  case length => rw [length_encode, toNat_unitLen hfits]
  case past =>
    intro o ho
    rw [roundUp, List.getElem?_eq_none ho]
  case rounded =>
    intro o ho
    rw [length_encode] at ho
    rw [hround]
    exact (cutsAt_before hfits o).isLeast_boundary (Nat.le_of_lt ho)
  case between =>
    intro a b hab
    obtain ⟨text, behind, hslice, hcut, hsource⟩ := exists_slice_eq hfits hab
    refine ⟨text, hslice, ?_⟩
    have hunits := unitsBetween_append (before source a) text behind
    rwa [← hsource, ← hcut, ← hround, ← hround, eq_comm] at hunits
  case joined => exact fun a b c hab hbc => exists_slice_append hfits hab hbc
  case line =>
    intro o
    rw [toNat_lineAt hlen, (cutsAt_before hfits o).count_take, Nat.add_comm]
  case start =>
    intro o
    obtain ⟨behind, hsource⟩ : before source o <+: source := List.take_prefix _ _
    have hgreatest := isGreatest_throughBreak (before source o) behind
    rwa [hsource, ← toNat_lineStart hlen, ← hround] at hgreatest
  case column =>
    intro o
    have hsum := unitCount_throughBreak_add (before source o)
    rw [toNat_colAt hlen, toNat_lineStart hlen, hround]
    omega

/-- A source with an emoji on either side of a line break. -/
theorem offsetsCountUnits_emoji :
    let source := ['a', '😀', '\r', '\n', '😀', 'b']
    (encode source).length < UInt32.size - 1 ∧ OffsetsCountUnits source := by
  intro source
  have hlen : (encode source).length < UInt32.size - 1 := by decide
  exact ⟨hlen, offsetsCountUnits hlen⟩

end MarkupTree
