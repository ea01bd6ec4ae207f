import MarkupTree.Proofs.Conformance.Acceptance
import MarkupTree.Proofs.Tags.Tiling

/-!
# Parsed sources pass the check

The tokens of a parsed source are cut out of it in a row. Each has the text between its offsets and
the positions of these, and the counter gives no identity twice before it has gone all the way
round, which takes more tokens than a source has characters.

* `agrees_ofText` — a token of a part of a source agrees with the source
* `check_eq_ok_of_parse` — a document that a dialect has read passes the check against its source
-/

namespace MarkupTree

/-! ## Tokens cut out of a source -/

/-- The token of a middle part of a text agrees with the text. -/
theorem Token.agrees_ofText (rules : PositionRules) {a b : List Char} (c : List Char)
    (id : TokenId) (h : Text.unitCount (a ++ b) < UInt32.size) :
    (Token.ofText rules (a ++ b ++ c) b (Text.unitLen a) id).Agrees rules (a ++ b ++ c) where
  ordered := by
    show Text.unitLen a ≤ Text.unitLen a + Text.unitLen b
    rw [← Text.unitLen_append]
    exact Text.unitLen_le_unitLen_append h
  length := by
    show Text.unitLen a + Text.unitLen b - Text.unitLen a = Text.unitLen b
    rw [UInt32.add_comm, UInt32.add_sub_cancel]
  text := by
    show slice (a ++ b ++ c) (Text.unitLen a) (Text.unitLen a + Text.unitLen b) = .ok b
    rw [← Text.unitLen_append]
    exact slice_append h
  start := rfl
  stop := rfl

namespace Tags

section

variable (rules : PositionRules) {source : List Char}

theorem agrees_token {c : Cursor} {lead rest : List Char} {p : Piece}
    (hascii : Dialect.isAscii (lead ++ p.source ++ rest) = true)
    (hlen : (lead ++ p.source ++ rest).length < UInt32.size) (hc : c.pos = lead.length) :
    (c.token rules (lead ++ p.source ++ rest) p).Agrees rules (lead ++ p.source ++ rest) := by
  obtain ⟨hcount, hstart, -⟩ := offsets_of_isAscii hascii hlen
  rw [Cursor.token, hc, ← hstart]
  exact Token.agrees_ofText rules rest ⟨c.id⟩ hcount

/-- The tokens of the pieces of a text agree with the text. -/
theorem agrees_tokens (hascii : Dialect.isAscii source = true)
    (hlen : source.length < UInt32.size) : ∀ (ps : List Piece) (c : Cursor) (lead : List Char),
      source = lead ++ sources ps → c.pos = lead.length →
        ∀ t ∈ c.tokens rules source ps, t.Agrees rules source
  | [], _, _, _, _ => fun _ h => nomatch h
  | p :: ps, c, lead, hsource, hc => by
    rw [sources_cons, ← List.append_assoc] at hsource
    have hstep : (c.step p).pos = (lead ++ p.source).length := by
      rw [Cursor.step, hc, List.length_append]
    rw [Cursor.tokens, List.forall_mem_cons]
    refine ⟨?_, agrees_tokens hascii hlen ps (c.step p) (lead ++ p.source) hsource hstep⟩
    rw [hsource] at hascii hlen ⊢
    exact agrees_token rules hascii hlen hc

/-- No identity comes twice before the counter has gone all the way round. -/
theorem nodup_id_tokens (c : Cursor) {ps : List Piece} (h : ps.length ≤ UInt64.size) :
    ((c.tokens rules source ps).map Token.id).Nodup := by
  rw [id_tokens]
  exact TokenId.nodup_row c.id h

end

theorem length_le_length_sources : ∀ {ps : List Piece}, (∀ p ∈ ps, p.Sound) →
    ps.length ≤ (sources ps).length
  | [], _ => Nat.le_refl 0
  | p :: ps, h => by
    rw [List.forall_mem_cons] at h
    have hpos := List.length_pos_iff.mpr (source_ne_nil h.1)
    have ih := length_le_length_sources h.2
    rw [sources_cons, List.length_append, List.length_cons]
    omega

end Tags

/-! ## Trees without ghosts and attributes -/

theorem Node.Plain.tokens_eq {n : Node} (h : n.Plain) : n.tokens = [n.token] := by
  rw [Node.tokens, h.bare]
  rfl

theorem Node.Plain.spans_eq {n : Node} (h : n.Plain) : n.spans = [n.token] := by
  rw [Node.spans, h.visible, h.bare]
  rfl

theorem flatMap_tokens_of_plain {ns : List Node} (h : ∀ n ∈ ns, n.Plain) :
    ns.flatMap Node.tokens = ns.map Node.token := by
  rw [List.map_eq_flatMap]
  exact List.flatMap_congr fun n hn => (h n hn).tokens_eq

/-- A forest of plain nodes passes a check when the tokens of its nodes agree with the source and
have different identities. -/
theorem checkNodes_of_plain {rules : PositionRules} {source : List Char} {nodes : List Node}
    (hplain : ∀ n ∈ flatten nodes, n.Plain)
    (hagrees : ∀ t ∈ (flatten nodes).map Node.token, t.Agrees rules source)
    (hnodup : (((flatten nodes).map Node.token).map Token.id).Nodup) :
    checkNodes rules source nodes = .ok () := by
  rw [checkNodes_eq_ok_iff_met, met_obligationsAll_iff, filterMap_id?_obligationsAll,
    flatMap_tokens_of_plain hplain]
  refine ⟨⟨fun n hn => (hplain n hn).closed, fun n hn t ht => ?_⟩, hnodup⟩
  rw [(hplain n hn).spans_eq, List.mem_singleton] at ht
  exact hagrees t (ht ▸ List.mem_map_of_mem hn)

/-- What a dialect makes of a source passes the check against that source. -/
theorem check_eq_ok_of_parse {d : Dialect} (hd : d = .markup ∨ d = .template) {source : List Char}
    (hlen : Text.unitCount source < UInt32.size - 1) {counter : Counter} {doc : Document}
    (h : (d.parse source counter).1 = .ok doc) : doc.check source = .ok () := by
  have hfits : Text.unitCount source < UInt32.size := by omega
  obtain ⟨hascii, items, hcanon, hrender, rfl⟩ := (Dialect.parse_eq_ok_iff hfits).mp h
  rw [Text.unitCount_of_isAscii hascii] at hfits
  rw [Document.check, Dialect.rules_eq_baseline hd]
  refine checkNodes_of_plain ?_ ?_ ?_
  · intro n hn
    exact Tags.plain_of_mem_flatten_nodes .baseline source hn
  · rw [Tags.token_flatten_nodes]
    exact Tags.agrees_tokens .baseline hascii hfits _ _ [] hrender.symm rfl
  · rw [Tags.token_flatten_nodes]
    have hshort := Tags.length_le_length_sources (Tags.Item.sound_of_canonicalAll hcanon)
    rw [← Tags.Item.render, hrender] at hshort
    have hsizes : UInt32.size ≤ UInt64.size := by decide
    exact Tags.nodup_id_tokens .baseline _ (by omega)

/-- An element within an element, and text behind them on another line. -/
theorem check_eq_ok_of_parse_nested :
    let source := ['<', 'p', '>', '<', '>', '{', '{', '}', '}', '<', '/', '>', '<', '/', 'p', '>',
      '\n', 'x']
    let items : List Tags.Item :=
      [.element ['p'] [.element [] [.mustache []]], .text ['\n', 'x']]
    let doc : Document := ⟨Tags.Item.nodes .baseline source ⟨0, 1⟩ items, true⟩
    Text.unitCount source < UInt32.size - 1 ∧ (Dialect.markup.parse source {}).1 = .ok doc ∧
      doc.check source = .ok () := by
  intro source items doc
  have hlen : Text.unitCount source < UInt32.size - 1 := by decide
  have hread : (Dialect.markup.parse source {}).1 = .ok doc :=
    (Dialect.parse_eq_ok_iff (by decide)).mpr ⟨by decide, items, by decide, rfl, rfl⟩
  exact ⟨hlen, hread, check_eq_ok_of_parse (Or.inl rfl) hlen hread⟩

end MarkupTree
