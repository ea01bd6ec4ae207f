import MarkupTree.Proofs.Tags.Order
import MarkupTree.Proofs.Tags.Verdict
import MarkupTree.Proofs.Token.Identity

/-!
# Tokens side by side

The tokens of a parsed source cover it from its start to its end without a gap, each with the next
identity. As the walk meets them in the order of the pieces, it reads the source aloud.

* `offsets_tokens` — the tokens of a row of pieces lie between the ends of that row
* `tiles_tokens` — they tile the text of the row
* `parse_tiles` — so do the tokens of a parsed source in the order of the walk
-/

namespace MarkupTree

/-- The first of two tokens ends where the second begins. -/
def Token.Meets (t u : Token) : Prop := t.endOffset = u.startOffset ∧ t.endPos = u.startPos

/-- Tokens lie side by side over a source, with identities in a row from `first` on. -/
structure Tiles (source : List Char) (first : UInt64) (ts : List Token) : Prop where
  raw : ts.flatMap Token.raw = source
  start : ∀ t ∈ ts.head?, t.startOffset = 0 ∧ t.startPos = ⟨1, 1⟩
  meets : ts.IsChain Token.Meets
  nonempty : ∀ t ∈ ts, t.raw ≠ []
  consecutive : ts.map (·.id.value) = (List.range ts.length).map fun k => first + UInt64.ofNat k
  /-- If the counter does not run over, the identities increase one by one as numbers too. -/
  increasing : first.toNat + ts.length ≤ UInt64.size →
    ts.map (·.id.value.toNat) = List.range' first.toNat ts.length

/-- A source begins on line one, in column one. -/
theorem position_zero (source : List Char) :
    PositionRules.baseline.position source 0 = ⟨1, 1⟩ := by
  have hcut : Text.before source 0 = [] := by cases source <;> rfl
  show (⟨lineAt source 0, colAt source 0⟩ : Position) = _
  rw [lineAt, colAt, hcut]
  rfl

namespace Tags

section

variable (rules : PositionRules) (source : List Char)

/-! ## The tokens of a row of pieces -/

theorem raw_tokens : ∀ (c : Cursor) (ps : List Piece),
    (c.tokens rules source ps).flatMap Token.raw = sources ps
  | _, [] => rfl
  | c, p :: ps => by
    rw [Cursor.tokens, List.flatMap_cons, raw_tokens (c.step p) ps]
    rfl

theorem length_tokens : ∀ (c : Cursor) (ps : List Piece),
    (c.tokens rules source ps).length = ps.length
  | _, [] => rfl
  | c, p :: ps => congrArg (· + 1) (length_tokens (c.step p) ps)

theorem nonempty_tokens : ∀ (c : Cursor) {ps : List Piece}, (∀ p ∈ ps, p.Sound) →
    ∀ t ∈ c.tokens rules source ps, t.raw ≠ []
  | _, [], _ => fun _ h => nomatch h
  | c, p :: ps, hsound => by
    rw [List.forall_mem_cons] at hsound
    rw [Cursor.tokens, List.forall_mem_cons]
    exact ⟨source_ne_nil hsound.1, nonempty_tokens (c.step p) hsound.2⟩

/-- The token of a piece in ASCII meets the one at the place behind the piece. -/
theorem meets_step (c : Cursor) {p : Piece} (h : Dialect.isAscii p.source = true) (q : Piece) :
    (c.token rules source p).Meets ((c.step p).token rules source q) := by
  have hoffset : UInt32.ofNat c.pos + Text.unitLen p.source = UInt32.ofNat (c.step p).pos := by
    rw [Text.unitLen_of_isAscii h, Cursor.step, UInt32.ofNat_add]
  refine ⟨hoffset, ?_⟩
  show rules.position source (UInt32.ofNat c.pos + Text.unitLen p.source)
    = rules.position source (UInt32.ofNat (c.step p).pos)
  rw [hoffset]

theorem isChain_tokens : ∀ (c : Cursor) {ps : List Piece}, Dialect.isAscii (sources ps) = true →
    (c.tokens rules source ps).IsChain Token.Meets
  | _, [], _ => .nil
  | _, [_], _ => .singleton _
  | c, p :: q :: ps, h => by
    rw [sources_cons, isAscii_append, Bool.and_eq_true] at h
    exact .cons_cons (meets_step rules source c h.1 q) (isChain_tokens (c.step p) h.2)

/-- The offsets of the token of a piece in ASCII, as numbers of characters. -/
theorem toNat_offsets_token (c : Cursor) {p : Piece} (hascii : Dialect.isAscii p.source = true)
    (hlen : c.pos + p.source.length < UInt32.size) :
    (c.token rules source p).startOffset.toNat = c.pos ∧
      (c.token rules source p).endOffset.toNat = c.pos + p.source.length := by
  have hstart : (c.token rules source p).startOffset = UInt32.ofNat c.pos := rfl
  have hstop : (c.token rules source p).endOffset = UInt32.ofNat (c.pos + p.source.length) := by
    rw [UInt32.ofNat_add, ← Text.unitLen_of_isAscii hascii]
    rfl
  rw [hstart, hstop, UInt32.toNat_ofNat_of_lt' (by omega), UInt32.toNat_ofNat_of_lt' hlen]
  exact ⟨rfl, rfl⟩

/-- The tokens of a row of pieces in ASCII lie between the place where the row begins and the one
where it ends. -/
theorem offsets_tokens : ∀ (c : Cursor) {ps : List Piece}, Dialect.isAscii (sources ps) = true →
    c.pos + (sources ps).length < UInt32.size → ∀ t ∈ c.tokens rules source ps,
      c.pos ≤ t.startOffset.toNat ∧ t.endOffset.toNat ≤ c.pos + (sources ps).length
  | _, [], _, _ => fun _ h => nomatch h
  | c, p :: ps, hascii, hlen => by
    rw [sources_cons, isAscii_append, Bool.and_eq_true] at hascii
    rw [sources_cons, List.length_append] at hlen ⊢
    rw [Cursor.tokens, List.forall_mem_cons]
    constructor
    · obtain ⟨hstart, hstop⟩ := toNat_offsets_token rules source c hascii.1 (by omega)
      omega
    · intro t ht
      have hrest : (c.step p).pos + (sources ps).length < UInt32.size := by
        rw [Cursor.step, Nat.add_assoc]
        exact hlen
      have ih := offsets_tokens (c.step p) hascii.2 hrest t ht
      rw [Cursor.step] at ih
      dsimp only at ih
      omega

/-- The identities of the tokens are in a row. -/
theorem id_tokens : ∀ (c : Cursor) (ps : List Piece),
    (c.tokens rules source ps).map Token.id = TokenId.row c.id ps.length
  | _, [] => rfl
  | c, p :: ps => by
    rw [Cursor.tokens, List.map_cons, id_tokens (c.step p) ps, List.length_cons,
      TokenId.row_succ_eq_cons]
    rfl

/-- The tokens of pieces in ASCII tile the text of the pieces. -/
theorem tiles_tokens (id : UInt64) {ps : List Piece} (hascii : Dialect.isAscii (sources ps) = true)
    (hsound : ∀ p ∈ ps, p.Sound) :
    Tiles (sources ps) id (Cursor.tokens .baseline source ⟨0, id⟩ ps) where
  raw := raw_tokens .baseline source ⟨0, id⟩ ps
  start := by
    cases ps with
    | nil => exact fun _ h => nomatch h
    | cons p ps =>
      intro t ht
      rw [← Option.some.inj ht]
      exact ⟨rfl, position_zero source⟩
  meets := isChain_tokens .baseline source ⟨0, id⟩ hascii
  nonempty := nonempty_tokens .baseline source ⟨0, id⟩ hsound
  consecutive := by
    have hids := congrArg (List.map TokenId.value) (id_tokens .baseline source ⟨0, id⟩ ps)
    rw [TokenId.row, List.map_map, List.map_map] at hids
    rw [length_tokens]
    exact hids
  increasing := by
    rw [length_tokens]
    intro h
    have hids := congrArg (List.map (·.value.toNat)) (id_tokens .baseline source ⟨0, id⟩ ps)
    rw [TokenId.map_toNat_row h, List.map_map] at hids
    exact hids

end

/-! ## The tokens of a source -/

/-- In the order of the walk the tokens of a parsed source tile it. Nothing is parsed from no
source. -/
theorem parse_tiles {d : Dialect} (hd : d = .markup ∨ d = .template) {source : List Char}
    (hlen : Text.unitCount source < UInt32.size - 1) {counter : Counter} {doc : Document}
    (h : (d.parse source counter).1 = .ok doc) :
    Tiles source counter.next ((flatten doc.nodes).map Node.token)
      ∧ (source = [] → doc.nodes = []) := by
  obtain ⟨hascii, items, hcanon, rfl, rfl⟩ :=
    (Dialect.parse_eq_ok_iff (Nat.lt_of_lt_of_le hlen (Nat.sub_le _ _))).mp h
  have hsound := Item.sound_of_canonicalAll hcanon
  constructor
  · rw [token_flatten_nodes, Dialect.rules_eq_baseline hd]
    exact tiles_tokens _ counter.next hascii hsound
  · intro hempty
    have hpieces := Item.pieces_render hcanon
    rw [hempty, pieces_nil, Prod.mk.injEq] at hpieces
    have hitems : items = [] := Item.piecesAll_injective hpieces.1.symm
    rw [hitems, Item.nodes]

/-- An element over two lines, with a mustache on the second. -/
theorem parse_tiles_element :
    let source := ['<', 'b', '>', 'a', '\n', '{', '{', 'x', '}', '}', '<', '/', 'b', '>']
    let items : List Item := [.element ['b'] [.text ['a', '\n'], .mustache ['x']]]
    let doc : Document := ⟨Item.nodes .baseline source ⟨0, 1⟩ items, true⟩
    Text.unitCount source < UInt32.size - 1 ∧ (Dialect.template.parse source {}).1 = .ok doc ∧
      Tiles source 1 ((flatten doc.nodes).map Node.token) := by
  intro source items doc
  have hlen : Text.unitCount source < UInt32.size - 1 := by decide
  have hread : (Dialect.template.parse source {}).1 = .ok doc :=
    (Dialect.parse_eq_ok_iff (by decide)).mpr ⟨by decide, items, by decide, rfl, rfl⟩
  exact ⟨hlen, hread, (parse_tiles (Or.inr rfl) hlen hread).1⟩

end Tags

end MarkupTree
