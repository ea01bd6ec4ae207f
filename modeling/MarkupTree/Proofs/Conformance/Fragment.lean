import MarkupTree.Proofs.Conformance.First
import MarkupTree.Proofs.Conformance.Made
import MarkupTree.Proofs.Position.Ends

/-!
# Which fragments pass the check

A fragment keeps the offset it is asked for, but its text begins at the cut there. Where the offset
splits a character these are one unit apart, and the end of the fragment, which is its offset and
the length of its text, lies one unit in front of the end of the text. A check takes the text
between the two offsets again: when the last character has two units, the end splits it and is
rounded back to where the text ends, and when it has one, that character is missed.

* `slice_add_unitLen` — the text that is found between the offsets of a fragment
* `checkNodes_fragment` — a fragment passes unless it begins inside a character and ends with one of
  a single unit
-/

namespace MarkupTree

open Text

/-- A text taken from inside a character on ends with a character of one unit, so its length leads
from there to the front of that character. -/
def FallsShort (source : List Char) (start : UInt32) (text : List Char) : Prop :=
  Splits source start.toNat ∧ ∃ c ∈ text.getLast?, unitWidth c = 1

section

variable {source text : List Char} {start stop : UInt32} {c : Char}

/-! ## The offset behind a text -/

/-- From an offset that splits a character, the length of the text behind the cut leads to one unit
in front of the end of that text. -/
theorem toNat_add_unitLen_of_splits (hlen : unitCount source < UInt32.size)
    (hsplits : Splits source start.toNat)
    (hcut : before source stop = before source start ++ text) :
    start ≤ start + unitLen text ∧
      (start + unitLen text).toNat + 1 = unitCount (before source start ++ text) := by
  have hround := (cutsAt_before hlen start).splits_iff.mp hsplits
  have hcount := unitCount_append (before source start) text
  have hsum := toNat_add_unitLen hlen hcut
  rw [UInt32.le_iff_toNat_le]
  exact ⟨by omega, by omega⟩

/-- The cut at that offset is in front of the last character if that has one unit, and otherwise
behind it, where the text ends. -/
theorem before_add_unitLen_of_splits (hlen : unitCount source < UInt32.size)
    (hsplits : Splits source start.toNat)
    (hcut : before source stop = before source start ++ (text ++ [c])) :
    before source (start + unitLen (text ++ [c]))
      = before source start ++ if unitWidth c = 1 then text else text ++ [c] := by
  obtain ⟨behind, hsource⟩ := before_leads_source source stop
  have hend := (toNat_add_unitLen_of_splits hlen hsplits hcut).2
  rw [← List.append_assoc] at hend
  have hshort := cutsAt_one_short behind hend
  rw [hcut] at hsource
  have hparts : before source start ++ text ++ c :: behind = source := by simpa using hsource
  rw [hparts] at hshort
  rw [(before_eq_iff hlen).mpr hshort]
  split <;> simp

/-! ## The text between the offsets of a fragment -/

/-- Between the offset of a fragment and that offset with the length of its text stands its text,
without the last character if it falls short. -/
theorem slice_add_unitLen (hlen : unitCount source < UInt32.size)
    (hslice : slice source start stop = .ok text) :
    start ≤ start + unitLen text ∧
      (¬FallsShort source start text → slice source start (start + unitLen text) = .ok text) ∧
      (FallsShort source start text →
        slice source start (start + unitLen text) = .ok text.dropLast) := by
  have hcut := before_eq_append_of_slice hlen hslice
  have hagain {kept : List Char} (hle : start ≤ start + unitLen text)
      (h : before source (start + unitLen text) = before source start ++ kept) :
      slice source start (start + unitLen text) = .ok kept := by
    rw [slice_of_le hle, h, ← length_before, List.drop_left]
  by_cases hsplits : Splits source start.toNat
  · have hle := (toNat_add_unitLen_of_splits hlen hsplits hcut).1
    refine ⟨hle, fun hreaches => ?_, fun hshort => ?_⟩
    · rcases List.eq_nil_or_concat' text with rfl | ⟨lead, c, rfl⟩
      · exact hagain hle (by simp)
      · have hwidth : unitWidth c ≠ 1 := fun h => hreaches ⟨hsplits, c, by simp, h⟩
        have hbehind := before_add_unitLen_of_splits hlen hsplits hcut
        rw [if_neg hwidth] at hbehind
        exact hagain hle hbehind
    · obtain ⟨-, c, hc, hwidth⟩ := hshort
      obtain ⟨lead, rfl⟩ := List.getLast?_eq_some_iff.mp hc
      have hbehind := before_add_unitLen_of_splits hlen hsplits hcut
      rw [if_pos hwidth] at hbehind
      rw [List.dropLast_concat]
      exact hagain hle hbehind
  · obtain ⟨hbehind, hsum⟩ := before_add_unitLen hlen hsplits hcut
    have hle : start ≤ start + unitLen text := by
      rw [UInt32.le_iff_toNat_le, checkedAdd_eq_some_iff.mp hsum]
      exact Nat.le_add_right _ _
    exact ⟨hle, fun _ => hagain hle (hbehind.trans hcut), fun h => absurd h.1 hsplits⟩

/-- A text that ends where an offset splits a character ends with that character. -/
theorem not_fallsShort_of_splits (hlen : unitCount source < UInt32.size)
    (hslice : slice source start stop = .ok text) (hsplits : Splits source stop.toNat) :
    ¬FallsShort source start text := by
  rintro ⟨-, c, hc, hwidth⟩
  obtain ⟨lead, rfl⟩ := List.getLast?_eq_some_iff.mp hc
  have hcut := before_eq_append_of_slice hlen hslice
  obtain ⟨a, d, b, hsource, hwide, hstop⟩ := hsplits
  have hend : before source stop = a ++ [d] := by
    rw [before_eq_iff hlen, hstop, hsource]
    exact cutsAt_inside a b hwide
  rw [hend, ← List.append_assoc] at hcut
  have hlast : d = c := List.singleton_inj.mp (List.append_inj' hcut rfl).2
  rw [← hlast, hwide] at hwidth
  exact absurd hwidth (by decide)

end

/-! ## The check of a fragment -/

/-- The check of a node by itself ends at the text of its token, if the offsets span that text and
the source has another one between them. -/
theorem checkNodes_lone_eq_rawMismatch {rules : PositionRules} {source expected : List Char}
    {t : Token} {kind : NodeKind} {name : List Char} (hordered : t.startOffset ≤ t.endOffset)
    (hlength : t.endOffset - t.startOffset = unitLen t.raw)
    (hslice : slice source t.startOffset t.endOffset = .ok expected) (hne : expected ≠ t.raw) :
    checkNodes rules source [Node.parent kind t name []]
      = .error (.error (.rawMismatch t.id t.startOffset t.endOffset t.raw expected)) := by
  have hflat : flatten [Node.parent kind t name []] = [] ++ Node.parent kind t name [] :: [] :=
    flatten_lone kind t name
  refine checkNodes_eq_rawMismatch hflat ?_ ?_ (fun _ hm => nomatch hm) ⟨hordered, hlength⟩ hslice
    hne
  · intro m hm
    rw [hflat, List.nil_append, List.mem_singleton] at hm
    rw [hm]
    exact ⟨rfl, rfl, fun _ h => nomatch h⟩
  · rw [hflat]
    exact List.nodup_singleton _

/-- Under all position rules, a node by itself passes the check when its token is a fragment, unless
the fragment begins inside a character and ends with a character of one unit. The check of such a
fragment finds the text without that last character. A start past the end of the source and an end
inside a character do no harm. -/
theorem checkNodes_fragment (rules : PositionRules) {source : List Char}
    (hlen : unitCount source < UInt32.size - 1) {start stop : UInt32} (hle : start ≤ stop)
    (kind : NodeKind) (name : List Char) (counter : Counter) :
    ∃ t, (Token.fragment rules source start stop counter).1 = .ok t ∧
      (¬FallsShort source start t.raw →
        checkNodes rules source [Node.parent kind t name []] = .ok ()) ∧
      (FallsShort source start t.raw →
        checkNodes rules source [Node.parent kind t name []]
          = .error (.error (.rawMismatch t.id t.startOffset t.endOffset t.raw t.raw.dropLast))) ∧
      (unitCount source ≤ start.toNat ∨ Splits source stop.toNat →
        checkNodes rules source [Node.parent kind t name []] = .ok ()) := by
  have hfits : unitCount source < UInt32.size := by omega
  obtain ⟨text, -, hslice, -, -⟩ := exists_slice_eq hfits hle
  obtain ⟨hends, hreaches, hshort⟩ := slice_add_unitLen hfits hslice
  have hmade : (Token.fragment rules source start stop counter).1
      = .ok (Token.ofText rules source text start counter.take.1) :=
    fragment_eq_ok_iff.mpr ⟨text, hslice, rfl⟩
  have hpasses (h : ¬FallsShort source start text) : checkNodes rules source
      [Node.parent kind (Token.ofText rules source text start counter.take.1) name []] = .ok () :=
    checkNodes_lone_iff.mpr
      (Token.agrees_iff_eq_ofText.mpr ⟨hends, text, hreaches h, rfl⟩)
  refine ⟨_, hmade, hpasses, fun h => ?_, fun h => hpasses ?_⟩
  · have hlength : start + unitLen text - start = unitLen text := by
      rw [UInt32.add_comm, UInt32.add_sub_cancel]
    have hne : text.dropLast ≠ text := by
      obtain ⟨-, c, hc, -⟩ := h
      obtain ⟨lead, rfl⟩ := List.getLast?_eq_some_iff.mp hc
      rw [List.dropLast_concat]
      simp
    exact checkNodes_lone_eq_rawMismatch hends hlength (hshort h) hne
  · rcases h with hpast | hsplits
    · exact fun h => absurd h.1.lt_unitCount (by omega)
    · exact not_fallsShort_of_splits hfits hslice hsplits

/-- Taken from inside the first of two emojis, a text that ends with a letter falls short, and one
that ends with the second emoji does not. -/
theorem checkNodes_fragment_emoji :
    let source := ['😀', '😀', 'b']
    let check (t : Token) := checkNodes .zeroBased source [Node.parent .text t [] []]
    unitCount source < UInt32.size - 1 ∧ (1 : UInt32) ≤ 5 ∧ (1 : UInt32) ≤ 3 ∧
      (∃ t, (Token.fragment .zeroBased source 1 5 {}).1 = .ok t ∧ t.raw = ['😀', 'b'] ∧
        check t = .error (.error (.rawMismatch ⟨1⟩ 1 4 ['😀', 'b'] ['😀']))) ∧
      ∃ t, (Token.fragment .zeroBased source 1 3 {}).1 = .ok t ∧ t.raw = ['😀'] ∧
        check t = .ok () := by
  intro source check
  have hlen : unitCount source < UInt32.size - 1 := by decide
  have hletter : (1 : UInt32) ≤ 5 := by decide
  have hemoji : (1 : UInt32) ≤ 3 := by decide
  have hsplits : Splits source (1 : UInt32).toNat := ⟨[], '😀', ['😀', 'b'], rfl, rfl, rfl⟩
  refine ⟨hlen, hletter, hemoji, ?_, ?_⟩
  · obtain ⟨t, ht, -, hshort, -⟩ := checkNodes_fragment .zeroBased hlen hletter .text [] {}
    obtain rfl := Except.ok.inj ht
    exact ⟨_, rfl, rfl, hshort ⟨hsplits, 'b', rfl, rfl⟩⟩
  · obtain ⟨t, ht, hpasses, -⟩ := checkNodes_fragment .zeroBased hlen hemoji .text [] {}
    obtain rfl := Except.ok.inj ht
    refine ⟨_, rfl, rfl, hpasses ?_⟩
    rintro ⟨-, c, hc, hwidth⟩
    obtain rfl := Option.some.inj hc
    exact absurd hwidth (by decide)

/-- An end past the end of the source does harm to a fragment that begins inside a character. -/
theorem checkNodes_fragment_past_end :
    let source := ['😀', 'b']
    unitCount source < UInt32.size - 1 ∧ (1 : UInt32) ≤ 5 ∧
      unitCount source < (5 : UInt32).toNat ∧
      ∃ t, (Token.fragment .baseline source 1 5 {}).1 = .ok t ∧
        checkNodes .baseline source [Node.leaf .text t]
          = .error (.error (.rawMismatch ⟨1⟩ 1 2 ['b'] [])) := by
  intro source
  refine ⟨by decide, by decide, by decide, _, rfl, ?_⟩
  rw [checkNodes_eq_preorderAll]
  decide

end MarkupTree
