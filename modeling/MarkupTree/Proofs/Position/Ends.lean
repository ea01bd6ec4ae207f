import MarkupTree.Proofs.Position.CodeUnits
import MarkupTree.Proofs.Tags.Run
import MarkupTree.Token.Factory

/-!
# The two ends of a text

Where a text ends can be found in two ways: from the place where it starts and the text alone, or
from its source and the offset behind it. The first counts the breaks of the text and the units of
its last line, the second looks for the last break in all that stands in front, be it in the text or
before it. In a source that fits the two agree, and so do the two ways in which a token is made.

* `endLine_lineAt`, `endCol_colAt` — the end of a text, from its start and from its source
* `before_add_unitLen` — the offset behind a slice cuts where the slice ends
* `make_eq_fragment` — a token made of the text of a fragment is that fragment
-/

namespace MarkupTree

open Text

section

variable {source raw : List Char} {start stop : UInt32}

/-! ## Line and column -/

/-- The line on which a part of a source ends. -/
theorem endLine_lineAt (hlen : unitCount source < UInt32.size - 1)
    (hcut : before source stop = before source start ++ raw) :
    endLine raw (lineAt source start) = .ok (lineAt source stop) := by
  have hfits := unitCount_before_lt hlen stop
  have hcount := breakCount_le_unitCount (before source stop)
  have hsum : breakCount (before source stop)
      = breakCount (before source start) + breakCount raw := by
    rw [hcut, breakCount_append]
  have hbreaks : (UInt32.ofNat (breakCount raw)).toNat = breakCount raw :=
    UInt32.toNat_ofNat_of_lt' (by omega)
  rw [endLine_eq_ok_iff, checkedAdd_eq_some_iff, toNat_lineAt hlen, toNat_lineAt hlen, hbreaks]
  omega

/-- The column behind a part of a source. -/
theorem endCol_colAt (hlen : unitCount source < UInt32.size - 1)
    (hcut : before source stop = before source start ++ raw) :
    endCol raw (colAt source start) = .ok (colAt source stop) := by
  have hfits := unitCount_before_lt hlen stop
  have hline := unitCount_throughBreak_add (before source stop)
  rw [endCol_eq_ok_iff, checkedAdd_eq_some_iff, toNat_colAt hlen]
  by_cases hbreak : '\n' ∈ raw
  · have hlast : lastLine (before source stop) = lastLine raw := by
      rw [hcut, lastLine_append_of_mem hbreak]
    have hone : (1 : UInt32).toNat = 1 := rfl
    rw [if_pos hbreak, hone, ← hlast, toNat_unitLen (by omega), Nat.add_comm]
  · have hlast : lastLine (before source stop) = lastLine (before source start) ++ raw := by
      rw [hcut, lastLine_append_of_not_mem hbreak]
    have hsum := congrArg unitCount hlast
    rw [unitCount_append] at hsum
    rw [if_neg hbreak, lastLine_of_not_mem hbreak, toNat_colAt hlen, toNat_unitLen (by omega)]
    omega

/-! ## The offset behind a slice -/

/-- Behind a slice that does not begin inside a character, its length leads to the cut at its end,
without a sum that wraps. -/
theorem before_add_unitLen (hlen : unitCount source < UInt32.size)
    (hsplits : ¬Splits source start.toNat)
    (hcut : before source stop = before source start ++ raw) :
    before source (start + unitLen raw) = before source stop ∧
      checkedAdd start (unitLen raw) = some (start + unitLen raw) := by
  obtain ⟨behind, hsource⟩ := before_leads_source source stop
  rw [hcut] at hsource
  rcases (cutsAt_before hlen start).cases with
    ⟨hall, hend⟩ | ⟨c, r, -, hstart⟩ | ⟨q, c, r, -, hinside, hwidth, hstart⟩
  · -- past the end there is no text
    have hraw : raw = [] := by
      rw [hall, List.append_assoc, List.append_right_eq_self] at hsource
      exact (List.append_eq_nil_iff.mp hsource).1
    rw [hcut, hraw, unitLen_nil, UInt32.add_zero, List.append_nil]
    exact ⟨rfl, checkedAdd_eq_some_iff.mpr rfl⟩
  · have hlead : unitCount (before source start ++ raw) < UInt32.size :=
      Nat.lt_of_le_of_lt (unitCount_mono ⟨behind, hsource⟩) hlen
    have hcount := unitCount_append (before source start) raw
    have hraw : (unitLen raw).toNat = unitCount raw := toNat_unitLen (by omega)
    have hsum : (start + unitLen raw).toNat = start.toNat + (unitLen raw).toNat :=
      toNat_add_of_lt (by omega)
    have hstop : start + unitLen raw = unitLen (before source start ++ raw) := by
      rw [← UInt32.toNat_inj, hsum, hraw, toNat_unitLen hlead, hcount, hstart]
    have hbehind := before_append behind hlead
    rw [hsource, ← hstop, ← hcut] at hbehind
    exact ⟨hbehind, checkedAdd_eq_some_iff.mpr hsum⟩
  · exact absurd ⟨q, c, r, hinside, hwidth, hstart⟩ hsplits

end

/-! ## The two ways to make a token -/

/-- In both dialects, the text of a fragment that does not begin inside a character, taken to the
place where the fragment begins, makes a token that differs from the fragment in nothing but its
identity. So the line and the column behind a text, counted from its start, are those of the offset
behind it in the source. -/
theorem make_eq_fragment {d : Dialect} (hd : d = .markup ∨ d = .template) {source : List Char}
    (hlen : unitCount source < UInt32.size - 1) {start stop : UInt32} (hle : start ≤ stop)
    (hsplits : ¬Splits source start.toNat) (counter later : Counter) :
    ∃ f, (Token.fragment d.rules source start stop counter).1 = .ok f ∧
      (Token.make d.rules (some f.raw) f.startLine f.startCol f.startOffset later).1
        = .ok { f with id := later.take.1 } ∧
      d.rules.endLine f.raw f.startLine = .ok (d.rules.lineAt source f.endOffset) ∧
      d.rules.endCol f.raw f.startCol = .ok (d.rules.colAt source f.endOffset) ∧
      d.rules.position source f.endOffset = d.rules.position source stop := by
  have hfits : unitCount source < UInt32.size := by omega
  rw [Dialect.rules_eq_baseline hd]
  obtain ⟨text, -, hslice, hcut, -⟩ := exists_slice_eq hfits hle
  obtain ⟨hbehind, hsum⟩ := before_add_unitLen hfits hsplits hcut
  have hline := endLine_lineAt hlen (hbehind.trans hcut)
  have hcol := endCol_colAt hlen (hbehind.trans hcut)
  refine ⟨Token.ofText .baseline source text start counter.take.1, ?_, ?_, hline, hcol, ?_⟩
  · rw [Token.fragment, hslice]
  · rw [Token.make_of_fits hsum hline hcol]
    rfl
  · exact PositionRules.baseline_position_congr hbehind

/-- A slice that begins behind an emoji and ends inside another one, two lines below. -/
theorem make_eq_fragment_lines :
    let source := ['a', '😀', '\r', '\n', 'b', '\r', '\n', '😀', 'c']
    unitCount source < UInt32.size - 1 ∧ (3 : UInt32) ≤ 9 ∧ ¬Splits source (3 : UInt32).toNat ∧
      ∃ f, (Token.fragment Dialect.template.rules source 3 9 {}).1 = .ok f ∧
        (Token.make Dialect.template.rules (some f.raw) f.startLine f.startCol f.startOffset ⟨7⟩).1
          = .ok { f with id := ⟨7⟩ } := by
  intro source
  have hlen : unitCount source < UInt32.size - 1 := by decide
  have hsplits : ¬Splits source (3 : UInt32).toNat := by
    rw [(cutsAt_before (by decide) 3).splits_iff]
    decide
  have hle : (3 : UInt32) ≤ 9 := by decide
  obtain ⟨f, hfragment, hmake, -⟩ := make_eq_fragment (Or.inr rfl) hlen hle hsplits {} ⟨7⟩
  exact ⟨hlen, hle, hsplits, f, hfragment, hmake⟩

end MarkupTree
