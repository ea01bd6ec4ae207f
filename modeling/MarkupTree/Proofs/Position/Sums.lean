import MarkupTree.Proofs.Position.Strict

/-!
# Sums that fit into a word

Lengths, columns and offsets are summed up in words, and most of these sums are formed without a
check. In a source that leaves room for a column behind its last unit no check is missed: each sum
is the number it stands for, those on the way to a length as well as the last one. The sum that
takes an offset from outside, the end of a fragment, is kept small by the text it adds: where the
offset is past the end there is no text, and where it splits a character that character is left out.

* `Text.unitLen_concat_fits` — a running sum of units, one character further
* `sums_fit` — all sums on the way from an offset to its place, and to the end of a fragment
* `colAt_eq_zero` — in a source of one unit more, a column can wrap
-/

namespace MarkupTree

open Text
open String (utf8Len)

namespace Text

/-- Of a part of a text that fits no running sum wraps. -/
theorem unitLen_concat_fits {s p : List Char} {c : Char} (hfits : unitCount s < UInt32.size)
    (h : p ++ [c] <:+: s) :
    (unitLen p).toNat = unitCount p ∧ (unitLen p).toNat + (unitWidth c).toNat < UInt32.size := by
  obtain ⟨a, b, rfl⟩ := h
  simp only [unitCount_append, unitCount_singleton] at hfits
  have hlen : (unitLen p).toNat = unitCount p := toNat_unitLen (by omega)
  exact ⟨hlen, by omega⟩

theorem unitCount_le_of_part {s m : List Char} (h : m <:+: s) : unitCount m ≤ unitCount s := by
  obtain ⟨a, b, rfl⟩ := h
  simp only [unitCount_append]
  omega

end Text

/-! ## From an offset of a source -/

/-- The sums that lead from an offset of a source to its place. What checks each of them does not
stop and comes to the same, and the result is the sum of numbers that have no limit. -/
structure SumsFit (source : List Char) (offset : UInt32) : Prop where
  /-- Along every part of the source, the units up to a character and those of the character. -/
  running : ∀ p c, p ++ [c] <:+: source →
    (unitLen p).toNat = unitCount p ∧ (unitLen p).toNat + (unitWidth c).toNat < UInt32.size
  /-- So the length of every part. -/
  length : ∀ m, m <:+: source →
    Strict.unitLen m = some (unitLen m) ∧ (unitLen m).toNat = unitCount m
  /-- The cut is found where it is, in front of or behind a character. -/
  index : Strict.byteIndex source offset = some (utf8Len (before source offset)) ∧
    CutsAt source offset.toNat (before source offset)
  line : Strict.lineAt source offset = some (lineAt source offset) ∧
    (lineAt source offset).toNat = breakCount (before source offset) + 1
  column : Strict.colAt source offset = some (colAt source offset) ∧
    (colAt source offset).toNat = unitCount (lastLine (before source offset)) + 1
  lineStart : Strict.lineStart source offset = some (lineStart source offset) ∧
    (lineStart source offset).toNat = unitCount (throughBreak (before source offset))

theorem sumsFit {source : List Char} (hlen : unitCount source < UInt32.size - 1)
    (offset : UInt32) : SumsFit source offset := by
  have hfits : unitCount source < UInt32.size := by omega
  constructor
  case running => exact fun _ _ => unitLen_concat_fits hfits
  case length =>
    intro m hm
    have hpart : unitCount m < UInt32.size :=
      Nat.lt_of_le_of_lt (unitCount_le_of_part hm) hfits
    exact ⟨Strict.unitLen_eq hpart, toNat_unitLen hpart⟩
  case index => exact ⟨Strict.byteIndex_eq hfits offset, cutsAt_before hfits offset⟩
  case line => exact ⟨Strict.lineAt_eq hlen offset, toNat_lineAt hlen offset⟩
  case column => exact ⟨Strict.colAt_eq hlen offset, toNat_colAt hlen offset⟩
  case lineStart => exact ⟨Strict.lineStart_eq hfits offset, toNat_lineStart hlen offset⟩

/-! ## To the end of a fragment -/

/-- The sum that leads to the end of a fragment with the text `raw`. -/
structure EndFits (source : List Char) (start stop : UInt32) (raw : List Char) : Prop where
  slice : slice source start stop = .ok raw ∧ Strict.slice source start stop = some raw
  /-- It is not past the end of the source, or not past the offset it starts from. -/
  bound : start.toNat + unitCount raw ≤ max start.toNat (unitCount source)
  /-- A check of the sum would find nothing, and it is that of the numbers. -/
  sum : checkedAdd start (unitLen raw) = some (start + unitLen raw) ∧
    (start + unitLen raw).toNat = start.toNat + unitCount raw
  /-- So a machine that checks its sums makes the same token. -/
  token : ∀ c, ∃ t, Token.fragment .baseline source start stop c = (.ok t, c.take.2) ∧
    t.endOffset = start + unitLen raw ∧
    Strict.fragment source start stop c = some (t, c.take.2)

theorem exists_endFits {source : List Char} (hlen : unitCount source < UInt32.size - 1)
    {start stop : UInt32} (hle : start ≤ stop) : ∃ raw, EndFits source start stop raw := by
  have hfits : unitCount source < UInt32.size := by omega
  obtain ⟨raw, -, hslice, hcut, -⟩ := exists_slice_eq hfits hle
  have hbound := add_unitCount_le_max hfits hcut
  have hsum := toNat_add_unitLen hfits hcut
  refine ⟨raw, ⟨hslice, ?_⟩, hbound, ⟨?_, hsum⟩, ?_⟩
  · rw [Strict.slice_eq hfits, hslice]
    rfl
  · have hstart := start.toNat_lt_size
    rw [checkedAdd_eq_some_iff, hsum, toNat_unitLen (by omega)]
  · intro c
    have htoken : Token.fragment .baseline source start stop c
        = (.ok (Token.ofText .baseline source raw start c.take.1), c.take.2) := by
      rw [Token.fragment, hslice]
    exact ⟨_, htoken, rfl, Strict.fragment_eq hlen hle htoken⟩

/-- In a source of less than `2 ^ 32 - 1` units, no sum that is formed without a check is too large
for a word: neither on the way from any offset to its place, nor at the end of any fragment, be its
start past the end of the source or inside a character. -/
theorem sums_fit {source : List Char} (hlen : (encode source).length < UInt32.size - 1) :
    (∀ offset, SumsFit source offset) ∧
      ∀ start stop, start ≤ stop → ∃ raw, EndFits source start stop raw := by
  rw [length_encode] at hlen
  exact ⟨sumsFit hlen, fun _ _ hle => exists_endFits hlen hle⟩

/-- Fragments from the last offset there is and from inside the emoji. -/
theorem sums_fit_emoji :
    let source := ['a', '\n', '😀', 'b']
    (encode source).length < UInt32.size - 1 ∧ SumsFit source 4294967295 ∧
      (4294967295 : UInt32) ≤ 4294967295 ∧ EndFits source 4294967295 4294967295 [] ∧
      (3 : UInt32) ≤ 4294967295 ∧ EndFits source 3 4294967295 ['b'] := by
  intro source
  have hlen : (encode source).length < UInt32.size - 1 := by decide
  have hlast : (4294967295 : UInt32) ≤ 4294967295 := by decide
  have hinside : (3 : UInt32) ≤ 4294967295 := by decide
  obtain ⟨hsums, hends⟩ := sums_fit hlen
  obtain ⟨raw, hraw⟩ := hends 4294967295 4294967295 hlast
  obtain ⟨raw', hraw'⟩ := hends 3 4294967295 hinside
  obtain rfl : raw = [] := Except.ok.inj (hraw.slice.1.symm.trans rfl)
  obtain rfl : raw' = ['b'] := Except.ok.inj (hraw'.slice.1.symm.trans rfl)
  exact ⟨hlen, hsums _, hlast, hraw, hinside, hraw'⟩

/-- There is no room for a longer source: with one unit more and no break, the column behind its end
is the first number that does not fit, and wraps. -/
theorem colAt_eq_zero {source : List Char} (hlen : unitCount source = UInt32.size - 1)
    (hbreak : '\n' ∉ source) :
    Strict.colAt source (unitLen source) = none ∧ colAt source (unitLen source) = 0 := by
  have hfits : unitCount source < UInt32.size := by
    rw [hlen]
    decide
  have hunits : (unitLen source).toNat = UInt32.size - 1 := by rw [toNat_unitLen hfits, hlen]
  have hall : before source (unitLen source) = source := by
    have hcut := before_append [] hfits
    rwa [List.append_nil] at hcut
  constructor
  · rw [Strict.colAt_eq_checkedAdd hfits, hall, lastLine_of_not_mem hbreak,
      checkedAdd_eq_none_iff, hunits]
    decide
  · rw [colAt, hall, lastLine_of_not_mem hbreak, ← UInt32.toNat_inj, UInt32.toNat_add, hunits]
    rfl

end MarkupTree
