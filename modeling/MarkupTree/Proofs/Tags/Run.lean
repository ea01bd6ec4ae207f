import MarkupTree.Proofs.Tags.Placement

/-!
# Runs of the parser

On a text in ASCII that is not too long, the parser reads the pieces of the text one after the other
and takes them in as a draft does.

* `parsePieces_read` — what a run along a row of pieces does
* `parsePieces_pieces` — a run along the pieces of a text
* `parsePieces_of_stuck` — where nothing more can be read
-/

namespace MarkupTree

namespace Tags

open Text

theorem fragment_append (rules : PositionRules) {a b : List Char} (c : List Char)
    (counter : Counter) (h : unitCount (a ++ b) < UInt32.size) :
    Token.fragment rules (a ++ b ++ c) (unitLen a) (unitLen (a ++ b)) counter
      = (.ok (Token.ofText rules (a ++ b ++ c) b (unitLen a) counter.take.1), counter.take.2) := by
  rw [Token.fragment, slice_append h]

section

variable (rules : PositionRules) {source : List Char}

/-! ## One piece -/

/-- The token that the parser makes for a piece is the token of that piece at its place. -/
theorem fragment_piece (hascii : Dialect.isAscii source = true) (hlen : source.length < UInt32.size)
    {before rest : List Char} {p : Piece} (hsource : source = before ++ (p.source ++ rest))
    {c : Cursor} (hc : c.pos = before.length) :
    Token.fragment rules source (UInt32.ofNat c.pos) (UInt32.ofNat (c.pos + p.source.length)) ⟨c.id⟩
      = (.ok (c.token rules source p), ⟨(c.step p).id⟩) := by
  rw [← List.append_assoc] at hsource
  subst hsource
  obtain ⟨hcount, hstart, hstop⟩ := offsets_of_isAscii hascii hlen
  rw [hc, ← hstart, ← hstop, fragment_append rules rest _ hcount, Cursor.token, hc, hstart]
  rfl

/-- The parser reads a piece, makes its token and takes it in. -/
theorem parsePieces_step (hascii : Dialect.isAscii source = true)
    (hlen : source.length < UInt32.size) {before rest : List Char} {p : Piece}
    (hsource : source = before ++ (p.source ++ rest)) (hsound : p.Sound) (hends : p.EndsAt rest)
    {c : Cursor} (hc : c.pos = before.length) (b : Builder) :
    parsePieces rules source (p.source ++ rest) c.pos b ⟨c.id⟩
      = match b.accept (c.token rules source p) p with
        | .error mistake =>
          (.error (.error ⟨mistake, UInt32.ofNat c.pos⟩), ⟨(c.step p).id⟩)
        | .ok b' => parsePieces rules source rest (c.step p).pos b' ⟨(c.step p).id⟩ := by
  have hne : p.source ++ rest ≠ [] := List.append_ne_nil_of_left_ne_nil (source_ne_nil hsound) _
  rw [parsePieces, dif_neg hne]
  split
  · next hnext => rw [next_source_append hsound hends] at hnext; cases hnext
  · next hnext =>
    rw [next_source_append hsound hends] at hnext
    cases hnext
    dsimp only
    rw [fragment_piece rules hascii hlen hsource hc]
    rfl

/-! ## A row of pieces -/

/-- The place behind what a draft holds, when its text begins the source. -/
def Draft.stop (d : Draft) (id : UInt64) : Cursor := Cursor.past ⟨0, id⟩ d.pieces

theorem Draft.stop_pos (d : Draft) (id : UInt64) : (d.stop id).pos = (sources d.pieces).length := by
  rw [stop, Cursor.past_eq, Nat.zero_add]

theorem Draft.stop_accept {d d' : Draft} {p : Piece} (id : UInt64) (h : d.accept p = .ok d') :
    d'.stop id = (d.stop id).step p := by
  rw [stop, accept_pieces h, Cursor.past_append]
  rfl

/-- A run along a row of pieces is a run of the draft along it. Behind the row the parser goes on
with the builder that the draft then is; a mistake is reported where the draft has come to. -/
theorem parsePieces_read (hascii : Dialect.isAscii source = true)
    (hlen : source.length < UInt32.size) (id : UInt64) :
    ∀ (ps : List Piece) (d : Draft) (rest : List Char),
      source = sources d.pieces ++ (sources ps ++ rest) → Delimited ps rest →
        parsePieces rules source (sources ps ++ rest) (d.stop id).pos
            (d.builder rules source ⟨0, id⟩) ⟨(d.stop id).id⟩
          = match d.read ps with
            | .error (mistake, d') =>
              (.error (.error ⟨mistake, UInt32.ofNat (d'.stop id).pos⟩), ⟨(d'.stop id).id + 1⟩)
            | .ok d' =>
              parsePieces rules source rest (d'.stop id).pos (d'.builder rules source ⟨0, id⟩)
                ⟨(d'.stop id).id⟩
  | [], _, _, _, _ => rfl
  | p :: ps, d, rest, hsource, ⟨hsound, hends, hdelim⟩ => by
    -- the builder is that of the draft and stands where the pieces of the draft end
    rw [sources_cons, List.append_assoc] at hsource ⊢
    rw [parsePieces_step rules hascii hlen hsource hsound hends (d.stop_pos id), Draft.stop,
      Draft.builder_accept, Draft.read]
    cases haccept : d.accept p with
    | error mistake => rfl
    | ok d' =>
      have hsource' : source = sources d'.pieces ++ (sources ps ++ rest) := by
        rw [Draft.accept_pieces haccept, sources_append, hsource]
        simp
      have ih := parsePieces_read hascii hlen id ps d' rest hsource' hdelim
      rw [Draft.stop_accept id haccept] at ih
      exact ih

theorem parsePieces_of_stuck {rest : List Char} {u : Unterminated} (hrest : rest ≠ [])
    (hnext : next rest = .error u) (pos : Nat) (b : Builder) (counter : Counter) :
    parsePieces rules source rest pos b counter
      = (.error (.error ⟨.unterminated u, UInt32.ofNat pos⟩), counter) := by
  rw [parsePieces, dif_neg hrest]
  split
  · next h =>
    rw [hnext] at h
    cases h
    rfl
  · next h => rw [hnext] at h; cases h

/-- A run from the start is a run of the draft along the pieces of the text. -/
theorem parsePieces_pieces (hascii : Dialect.isAscii source = true)
    (hlen : source.length < UInt32.size) (id : UInt64) :
    parsePieces rules source source 0 {} ⟨id⟩
      = match Draft.read {} (pieces source).1 with
        | .error (mistake, d) =>
          (.error (.error ⟨mistake, UInt32.ofNat (d.stop id).pos⟩), ⟨(d.stop id).id + 1⟩)
        | .ok d =>
          parsePieces rules source (pieces source).2 (d.stop id).pos
            (d.builder rules source ⟨0, id⟩) ⟨(d.stop id).id⟩ := by
  obtain ⟨hsource, hdelim, -⟩ := pieces_spec source
  have hrun := parsePieces_read rules hascii hlen id (pieces source).1 {}
    (pieces source).2 hsource.symm hdelim
  rw [hsource] at hrun
  exact hrun

end

end Tags

end MarkupTree
