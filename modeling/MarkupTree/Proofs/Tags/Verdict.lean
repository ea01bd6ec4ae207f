import MarkupTree.Proofs.Tags.Run

/-!
# What a text is read as

Whether a text has a tree, and otherwise what is wrong with it and where, lies in its pieces alone:
no rules, no tokens and no counter come into it. The verdict on a text is the forest that it is the
writing of, or else its first flaw.

* `verdict_eq_ok_iff` — which texts have a forest, and which forest it is
* `pos_lt_of_verdict` — a flaw lies inside the text
* `parse_eq_verdict`, `Dialect.parse_eq_verdict` — the parser answers with the verdict
* `Dialect.parse_eq_ok_iff`, `Dialect.parse_eq_invalidSource_iff` — which sources a dialect reads,
  and what it says of others
-/

namespace MarkupTree

namespace Tags

/-- A mistake and the number of characters in front of it. -/
structure Flaw where
  mistake : Mistake
  pos : Nat
deriving DecidableEq, Repr

namespace Draft

/-- The number of characters that a draft has taken in. -/
def length (d : Draft) : Nat := (sources d.pieces).length

/-- The forest of a draft in which no element is open. The flaw of any other is the innermost open
element, where its start tag begins. -/
def finish (d : Draft) : Except Flaw (List Item) :=
  match d.opened with
  | [] => .ok d.roots.reverse
  | o :: os => .error ⟨.unclosed o.name, length { d with opened := os }⟩

/-- A mistake is found at a piece behind those that the draft has taken in. -/
theorem exists_of_read_eq_error {mistake : Mistake} : ∀ {ps : List Piece} {d d' : Draft},
    d.read ps = .error (mistake, d') →
      ∃ taken p later, ps = taken ++ p :: later ∧ d.read taken = .ok d' ∧
        d'.accept p = .error mistake
  | [], _, _, h => nomatch h
  | p :: ps, d, d', h => by
    rw [read] at h
    split at h
    · next d₁ hstep =>
      obtain ⟨taken, q, later, rfl, htaken, hfails⟩ := exists_of_read_eq_error h
      refine ⟨p :: taken, q, later, rfl, ?_, hfails⟩
      rw [read, hstep]
      exact htaken
    · next m hstep =>
      simp only [Except.error.injEq, Prod.mk.injEq] at h
      obtain ⟨rfl, rfl⟩ := h
      exact ⟨[], p, ps, rfl, rfl, hstep⟩

/-- An open element begins inside the text of its draft. -/
theorem pos_lt_of_finish {d : Draft} {flaw : Flaw} (h : d.finish = .error flaw) :
    flaw.pos < d.length := by
  rw [finish] at h
  split at h
  · cases h
  · next o os ho =>
    -- its start tag is among the pieces taken in
    rw [← Except.error.inj h, length, length, pieces, pieces, ho, openedPieces]
    simp only [sources_append, sources_cons, List.length_append, Piece.source, List.length_cons]
    omega

end Draft

/-- What begins and does not end at the start of a text. -/
def unterminated? (s : List Char) : Option Unterminated :=
  if s = [] then none else
  match next s with
  | .error u => some u
  | .ok _ => none

/-- The forest that a text is the writing of, or the first flaw of the text. -/
def verdict (s : List Char) : Except Flaw (List Item) :=
  match Draft.read {} (pieces s).1 with
  | .error (mistake, d) => .error ⟨mistake, d.length⟩
  | .ok d =>
    match unterminated? (pieces s).2 with
    | some u => .error ⟨.unterminated u, d.length⟩
    | none => d.finish

theorem unterminated?_eq_some_iff {s : List Char} {u : Unterminated} :
    unterminated? s = some u ↔ s ≠ [] ∧ next s = .error u := by
  unfold unterminated?
  split
  · next hs => simp [hs]
  · next hs =>
    cases hnext : next s with
    | error u' => simp [hs]
    | ok r => simp

theorem unterminated?_pieces_eq_none_iff {s : List Char} :
    unterminated? (pieces s).2 = none ↔ (pieces s).2 = [] := by
  constructor
  · intro h
    by_contra hrest
    obtain ⟨u, hu⟩ := (pieces_spec s).2.2 hrest
    rw [unterminated?_eq_some_iff.mpr ⟨hrest, hu⟩] at h
    cases h
  · intro h
    rw [h]
    rfl

/-! ## The texts of forests -/

/-- A text in ASCII has a forest exactly when it is the writing of it, and the forest canonical. -/
theorem verdict_eq_ok_iff {s : List Char} (hascii : Dialect.isAscii s = true)
    {items : List Item} :
    verdict s = .ok items ↔ Item.CanonicalAll items ∧ Item.render items = s := by
  constructor
  · intro h
    unfold verdict at h
    split at h
    · cases h
    · next d hread =>
      split at h
      · cases h
      · next hnone =>
        obtain ⟨opened, roots⟩ := d
        cases opened with
        | cons o os => cases h
        | nil =>
          have hpieces : pieces s = (Item.piecesAll roots.reverse, []) :=
            Prod.ext (Draft.read_eq_closed_iff.mp hread)
              (unterminated?_pieces_eq_none_iff.mp hnone)
          rw [← Except.ok.inj h]
          exact Item.canonicalAll_of_pieces_eq hascii hpieces
  · rintro ⟨hcanon, rfl⟩
    have hread : Draft.read {} (Item.piecesAll items) = .ok ⟨[], items.reverse⟩ :=
      Draft.read_eq_closed_iff.mpr (by rw [List.reverse_reverse])
    rw [verdict, Item.pieces_render hcanon, hread]
    exact congrArg Except.ok (List.reverse_reverse items)

/-! ## Where flaws are -/

theorem length_pieces (s : List Char) :
    (sources (pieces s).1).length + (pieces s).2.length = s.length := by
  rw [← List.length_append, (pieces_spec s).1]

theorem Delimited.sound : ∀ {ps : List Piece} {rest : List Char}, Delimited ps rest →
    ∀ p ∈ ps, p.Sound
  | [], _, _ => fun _ h => nomatch h
  | _ :: _, _, ⟨hsound, _, hdelim⟩ => by
    rw [List.forall_mem_cons]
    exact ⟨hsound, hdelim.sound⟩

/-- A flaw lies in front of the end of the text. -/
theorem pos_lt_of_verdict {s : List Char} {flaw : Flaw} (h : verdict s = .error flaw) :
    flaw.pos < s.length := by
  have hlength := length_pieces s
  unfold verdict at h
  split at h
  · next mistake d hread =>
    -- the piece at fault is not empty
    obtain ⟨taken, p, later, hps, htaken, -⟩ := Draft.exists_of_read_eq_error hread
    have hpieces : d.pieces = taken := Draft.read_pieces htaken
    have hsound := (pieces_spec s).2.1.sound p (by rw [hps]; simp)
    have hpos := List.length_pos_iff.mpr (source_ne_nil hsound)
    rw [hps, sources_append, sources_cons, List.length_append, List.length_append] at hlength
    rw [← Except.error.inj h, Draft.length, hpieces]
    show (sources taken).length < s.length
    omega
  · next d hread =>
    have hpieces : d.pieces = (pieces s).1 := Draft.read_pieces hread
    split at h
    · next u hu =>
      have hpos := List.length_pos_iff.mpr (unterminated?_eq_some_iff.mp hu).1
      rw [← Except.error.inj h, Draft.length, hpieces]
      dsimp only
      omega
    · have hpos := Draft.pos_lt_of_finish h
      rw [Draft.length, hpieces] at hpos
      omega

/-! ## The answer of the parser -/

section

variable (rules : PositionRules) {source : List Char}

theorem finish_builder (c : Cursor) (d : Draft) :
    (d.builder rules source c).finish
      = match d.finish with
        | .ok items => .ok { nodes := Item.nodes rules source c items, isFragment := true }
        | .error flaw => .error ⟨flaw.mistake, UInt32.ofNat (c.pos + flaw.pos)⟩ := by
  obtain ⟨opened, roots⟩ := d
  cases opened with
  | nil =>
    rw [Draft.builder, Draft.openedAt, Builder.finish, Draft.finish]
    simp
  | cons o os =>
    have hpos : ((c.past (Item.piecesAll roots.reverse)).past (Draft.openedPieces os)).pos
        = c.pos + Draft.length ⟨os, roots⟩ := by
      rw [← Cursor.past_append, Cursor.past_eq]
      rfl
    rw [Draft.builder, Draft.openedAt, Builder.finish, Draft.finish]
    dsimp only
    rw [← hpos]
    rfl

/-- On a text in ASCII the parser gives the verdict on it: the forest as nodes, or the flaw at its
offset. -/
theorem parse_eq_verdict (hascii : Dialect.isAscii source = true)
    (hlen : source.length < UInt32.size) (counter : Counter) :
    (parse rules source counter).1
      = match verdict source with
        | .ok items => .ok { nodes := Item.nodes rules source ⟨0, counter.next⟩ items
                             isFragment := true }
        | .error flaw => .error (.error ⟨flaw.mistake, UInt32.ofNat flaw.pos⟩) := by
  rw [parse, parsePieces_pieces rules hascii hlen counter.next, verdict]
  cases hread : Draft.read {} (pieces source).1 with
  | error e =>
    obtain ⟨mistake, d⟩ := e
    dsimp only
    rw [Draft.stop_pos]
    rfl
  | ok d =>
    dsimp only
    cases hu : unterminated? (pieces source).2 with
    | some u =>
      obtain ⟨hrest, hnext⟩ := unterminated?_eq_some_iff.mp hu
      rw [parsePieces_of_stuck rules hrest hnext, Draft.stop_pos]
      rfl
    | none =>
      rw [unterminated?_pieces_eq_none_iff.mp hu, parsePieces_nil]
      dsimp only
      rw [finish_builder]
      cases d.finish with
      | ok items => rfl
      | error flaw =>
        dsimp only
        rw [Nat.zero_add]
        rfl

/-- A text in ASCII has a tree exactly when it is the writing of a canonical forest, and the tree is
that forest with its first token at the start of the text. -/
theorem parse_eq_ok_iff (hascii : Dialect.isAscii source = true)
    (hlen : source.length < UInt32.size) {counter : Counter} {doc : Document} :
    (parse rules source counter).1 = .ok doc ↔
      ∃ items, Item.CanonicalAll items ∧ Item.render items = source ∧
        doc = { nodes := Item.nodes rules source ⟨0, counter.next⟩ items, isFragment := true } := by
  simp only [← and_assoc, ← verdict_eq_ok_iff hascii]
  rw [parse_eq_verdict rules hascii hlen]
  cases verdict source <;> simp [eq_comm]

end

end Tags

namespace Dialect

variable {d : Dialect} {source : List Char}

/-- A dialect refuses a source that is not in ASCII, and gives the verdict on any other. -/
theorem parse_eq_verdict (hlen : Text.unitCount source < UInt32.size) (counter : Counter) :
    (d.parse source counter).1
      = if isAscii source then
          match Tags.verdict source with
          | .ok items => .ok { nodes := Tags.Item.nodes d.rules source ⟨0, counter.next⟩ items
                               isFragment := true }
          | .error flaw =>
            .error (.error (.invalidSource flaw.mistake.message (some (UInt32.ofNat flaw.pos))))
        else .error (.error (.unsupported "non-ASCII source")) := by
  unfold parse
  split
  · next hascii =>
    rw [Text.unitCount_of_isAscii hascii] at hlen
    dsimp only
    rw [Tags.parse_eq_verdict d.rules hascii hlen]
    cases Tags.verdict source <;> rfl
  · rfl

/-- A dialect reads a source exactly when it is in ASCII and the writing of a canonical forest. -/
theorem parse_eq_ok_iff {counter : Counter} {doc : Document}
    (hlen : Text.unitCount source < UInt32.size) :
    (d.parse source counter).1 = .ok doc ↔
      isAscii source = true ∧
        ∃ items, Tags.Item.CanonicalAll items ∧ Tags.Item.render items = source ∧
          doc = { nodes := Tags.Item.nodes d.rules source ⟨0, counter.next⟩ items
                  isFragment := true } := by
  rw [parse_eq_verdict hlen]
  split
  · next hascii =>
    rw [and_iff_right hascii]
    simp only [← and_assoc, ← Tags.verdict_eq_ok_iff hascii]
    cases Tags.verdict source <;> simp [eq_comm]
  · next hascii => exact iff_of_false (fun h => nomatch h) fun h => hascii h.1

/-- A parse error names the flaw of the source and stands where the flaw is. -/
theorem parse_eq_invalidSource_iff (hlen : Text.unitCount source < UInt32.size) {counter : Counter}
    {detail : String} {k : UInt32} :
    (d.parse source counter).1 = .error (.error (.invalidSource detail (some k))) ↔
      isAscii source = true ∧ ∃ flaw, Tags.verdict source = .error flaw ∧
        detail = flaw.mistake.message ∧ k.toNat = flaw.pos := by
  rw [parse_eq_verdict hlen]
  split
  · next hascii =>
    rw [Text.unitCount_of_isAscii hascii] at hlen
    rw [and_iff_right hascii]
    cases hverdict : Tags.verdict source with
    | ok items => simp
    | error flaw =>
      have hpos := Tags.pos_lt_of_verdict hverdict
      have hoffset : UInt32.ofNat flaw.pos = k ↔ k.toNat = flaw.pos := by
        rw [← UInt32.toNat_inj, UInt32.toNat_ofNat_of_lt' (by omega), eq_comm]
      simp only [Except.error.injEq, Failure.error.injEq, ParseError.invalidSource.injEq,
        Option.some.injEq, exists_eq_left', hoffset, eq_comm (a := detail)]
  · next hascii => simp [hascii]

end Dialect

end MarkupTree
