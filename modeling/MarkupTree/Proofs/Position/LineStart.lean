import MarkupTree.Proofs.Position.CodeUnits

/-!
# Where the line of an offset begins

The start of a line is found by looking back from an offset to the last break. It is an offset
too, the one behind that break, and from every boundary on the line, its start included, the same
break is found. So the line is one piece: its start, its number and its columns belong together.

* `Text.throughBreak_of_between` — up to each end on its last line a text has the same complete lines
* `before_lineStart` — in front of the start of a line stand the complete lines
* `lineCoheres` — line, column and start of the line of every offset
-/

namespace MarkupTree

open Text

/-! ## Complete lines -/

namespace Text

/-- Without a break in `t` no line is completed by it. -/
theorem throughBreak_append_of_not_mem {s t : List Char} (h : '\n' ∉ t) :
    throughBreak (s ++ t) = throughBreak s := by
  have hall := throughBreak_append_lastLine (s ++ t)
  rw [lastLine_append_of_not_mem h, ← List.append_assoc] at hall
  have hlead := List.append_cancel_right hall
  conv_rhs at hlead => rw [← throughBreak_append_lastLine s]
  exact List.append_cancel_right hlead

@[simp] theorem throughBreak_throughBreak (s : List Char) :
    throughBreak (throughBreak s) = throughBreak s := by
  have h := throughBreak_append_of_not_mem (s := throughBreak s) (not_mem_lastLine s)
  rwa [throughBreak_append_lastLine, eq_comm] at h

@[simp] theorem lastLine_throughBreak (s : List Char) : lastLine (throughBreak s) = [] := by
  have h := throughBreak_append_lastLine (throughBreak s)
  rwa [throughBreak_throughBreak, List.append_right_eq_self] at h

@[simp] theorem breakCount_throughBreak (s : List Char) :
    breakCount (throughBreak s) = breakCount s := by
  have h := breakCount_append (throughBreak s) (lastLine s)
  have hline : breakCount (lastLine s) = 0 := List.count_eq_zero.mpr (not_mem_lastLine s)
  rw [throughBreak_append_lastLine] at h
  omega

/-- A part of a text that ends on its last line has the same complete lines. -/
theorem throughBreak_of_between {s p : List Char} (hstart : throughBreak s <+: p) (hp : p <+: s) :
    throughBreak p = throughBreak s := by
  obtain ⟨t, rfl⟩ := hstart
  obtain ⟨r, hr⟩ := hp
  -- what stands between the two is a part of the last line, so it holds no break
  have hline : t ++ r = lastLine s := by
    conv_rhs at hr => rw [← throughBreak_append_lastLine s]
    rw [List.append_assoc] at hr
    exact List.append_cancel_left hr
  have hbreak : '\n' ∉ t := by
    intro h
    exact not_mem_lastLine s (hline ▸ List.mem_append_left r h)
  rw [throughBreak_append_of_not_mem hbreak, throughBreak_throughBreak]

end Text

/-! ## The line of an offset -/

section

variable {source : List Char} (hfits : unitCount source < UInt32.size)

include hfits

/-- In front of the start of a line stand the complete lines. -/
theorem before_lineStart (offset : UInt32) :
    before source (lineStart source offset) = throughBreak (before source offset) := by
  obtain ⟨behind, hsource⟩ := before_leads_source source offset
  rw [← throughBreak_append_lastLine (before source offset), List.append_assoc] at hsource
  have hlead : unitCount (throughBreak (before source offset)) < UInt32.size :=
    Nat.lt_of_le_of_lt (unitCount_mono ⟨_, hsource⟩) hfits
  have hcut := before_append (lastLine (before source offset) ++ behind) hlead
  rwa [hsource] at hcut

/-- From a boundary on the line the same complete lines stand in front. -/
theorem throughBreak_before {offset p : UInt32} (hp : IsBoundary source p.toNat)
    (hstart : lineStart source offset ≤ p)
    (hreach : p.toNat ≤ roundUp (encode source) offset.toNat) :
    throughBreak (before source p) = throughBreak (before source offset) := by
  have hleads : throughBreak (before source offset) <+: before source p := by
    rw [← before_lineStart hfits]
    exact before_prefix_before hfits hstart
  have hled : before source p <+: before source offset := by
    rw [prefix_iff_unitCount_le (before_leads_source _ _) (before_leads_source _ _),
      unitCount_before hfits, unitCount_before hfits, hp.roundUp_eq]
    exact hreach
  exact throughBreak_of_between hleads hled

end

/-- How the line of an offset, its start and its columns belong together. -/
structure LineCoheres (source : List Char) (offset : UInt32) : Prop where
  /-- The start of the line and the column lead to the offset rounded up. -/
  reach : (lineStart source offset).toNat + (colAt source offset).toNat
    = roundUp (encode source) offset.toNat + 1
  /-- The line starts in the first column, on the line itself, and where it starts. -/
  startCol : colAt source (lineStart source offset) = 1
  startLine : lineAt source (lineStart source offset) = lineAt source offset
  startStart : lineStart source (lineStart source offset) = lineStart source offset
  /-- Every boundary from the start of the line to the offset is on the line, in the column of its
  distance to the start. -/
  along : ∀ p : UInt32, IsBoundary source p.toNat → lineStart source offset ≤ p →
    p.toNat ≤ roundUp (encode source) offset.toNat →
    lineAt source p = lineAt source offset ∧
      (colAt source p).toNat = p.toNat - (lineStart source offset).toNat + 1

/-- In a source that fits, the line of every offset is one piece. -/
theorem lineCoheres {source : List Char} (hlen : (encode source).length < UInt32.size - 1)
    (offset : UInt32) : LineCoheres source offset := by
  rw [length_encode] at hlen
  have hfits : unitCount source < UInt32.size := by omega
  have hreach (o : UInt32) : (lineStart source o).toNat + (colAt source o).toNat
      = roundUp (encode source) o.toNat + 1 := by
    have hsum := unitCount_throughBreak_add (before source o)
    rw [← unitCount_before hfits, toNat_lineStart hlen, toNat_colAt hlen]
    omega
  have hstart := before_lineStart hfits offset
  constructor
  case reach => exact hreach offset
  case startCol =>
    rw [colAt, hstart, lastLine_throughBreak]
    rfl
  case startLine => rw [lineAt, hstart, breakCount_throughBreak, lineAt]
  case startStart => rw [lineStart, hstart, throughBreak_throughBreak, lineStart]
  case along =>
    intro p hp hafter hbefore
    have hlines := throughBreak_before hfits hp hafter hbefore
    have hsame : lineStart source p = lineStart source offset := by
      rw [lineStart, hlines, lineStart]
    constructor
    · rw [lineAt, ← breakCount_throughBreak, hlines, breakCount_throughBreak, lineAt]
    · have hcol := hreach p
      rw [hsame, hp.roundUp_eq] at hcol
      have := UInt32.le_iff_toNat_le.mp hafter
      omega

/-- The offset splits the second emoji, whose line starts behind the carriage return and the line
feed. -/
theorem lineCoheres_emoji :
    let source := ['😀', '\r', '\n', 'b', '😀', '\n']
    (encode source).length < UInt32.size - 1 ∧ lineStart source 6 = 4 ∧ lineAt source 6 = 2 ∧
      colAt source 6 = 4 ∧ roundUp (encode source) 6 = 7 ∧ LineCoheres source 6 := by
  intro source
  have hlen : (encode source).length < UInt32.size - 1 := by decide
  exact ⟨hlen, by decide, by decide, by decide, by decide, lineCoheres hlen 6⟩

end MarkupTree
