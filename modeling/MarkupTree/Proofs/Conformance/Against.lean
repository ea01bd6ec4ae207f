import MarkupTree.Proofs.Conformance.First
import MarkupTree.Proofs.Text.Reach

/-!
# Parsed sources against other texts

A document can be checked against another text than the one it was parsed from. As long as the two
texts are the same, so are their cuts, and the tokens agree with both. The first token that reaches
beyond what they have in common has its own text in one of them only. So the check finds out whether
the other text begins with the source.

* `Agrees.of_lead` — a token agrees with all texts that begin alike up to its end
* `LeadsOut` — the token that reaches beyond what two texts have in common
* `exists_leadsOut` — if a text does not begin with a source, there is such a token
* `check_eq_ok_iff_of_parse` — what the check of a parsed document against another text says
-/

namespace MarkupTree

open Text

/-! ## Texts that begin alike -/

section

variable {source other common : List Char} {ts us : List Token} {t u : Token}

/-- A token agrees with every text that begins like its source up to the end of the token. -/
theorem Token.Agrees.of_lead (h : t.Agrees .baseline source)
    (hsource : unitCount source < UInt32.size) (hother : unitCount other < UInt32.size)
    (hls : common <+: source) (hlo : common <+: other)
    (hend : t.endOffset.toNat ≤ unitCount common) : t.Agrees .baseline other := by
  have hle := UInt32.le_iff_toNat_le.mp h.ordered
  have hstart : before source t.startOffset = before other t.startOffset :=
    before_congr hsource hother hls hlo (by omega)
  have hstop : before source t.endOffset = before other t.endOffset :=
    before_congr hsource hother hls hlo hend
  refine ⟨h.ordered, h.length, ?_, ?_, ?_⟩
  · have htext := h.text
    rwa [slice_of_le h.ordered, ← length_before, hstart, hstop, length_before,
      ← slice_of_le h.ordered] at htext
  · rw [h.start, PositionRules.baseline_position_congr hstart]
  · rw [h.stop, PositionRules.baseline_position_congr hstop]

/-! ## The token that leads out of the common part -/

/-- Two texts have `common` at their beginning, and the token `t` leads out of it: the tokens `ts`
lie inside, `t` begins where it ends and does not go on as the other text does, and the tokens `us`
come later. -/
structure LeadsOut (source other common : List Char) (ts : List Token) (t : Token)
    (us : List Token) : Prop where
  inSource : common <+: source
  inOther : common <+: other
  inside : ∀ u ∈ ts, u.endOffset.toNat ≤ unitCount common
  start : t.startOffset.toNat = unitCount common
  stop : before source t.endOffset = common ++ t.raw
  departs : ¬common ++ t.raw <+: other
  later : ∀ u ∈ us, t.startOffset ≤ u.startOffset

/-- The tokens inside the common part end where the other text is still the same. -/
theorem LeadsOut.before_leads (h : LeadsOut source other common ts t us)
    (hsource : unitCount source < UInt32.size) (hother : unitCount other < UInt32.size)
    (hu : u ∈ ts) : before source u.endOffset <+: other := by
  rw [before_congr hsource hother h.inSource h.inOther (h.inside u hu)]
  exact before_leads_source _ _

/-- The other text has another text where the token that leads out stands. -/
theorem LeadsOut.exists_slice_ne (h : LeadsOut source other common ts t us)
    (hagrees : t.Agrees .baseline source) (hsource : unitCount source < UInt32.size)
    (hother : unitCount other < UInt32.size) :
    ∃ expected, slice other t.startOffset t.endOffset = .ok expected ∧ expected ≠ t.raw := by
  refine ⟨_, slice_of_le hagrees.ordered, fun heq => h.departs ?_⟩
  have hslice : slice other t.startOffset t.endOffset = .ok t.raw := by
    rw [slice_of_le hagrees.ordered, heq]
  -- the other text has the same part in front of the token, and would have its text behind it
  have hfront : before source t.startOffset = common := by
    have hcut := before_eq_append_of_slice hsource hagrees.text
    rw [h.stop] at hcut
    exact (List.append_cancel_right hcut).symm
  have hcommon : before other t.startOffset = common := by
    rw [← before_congr hsource hother h.inSource h.inOther (Nat.le_of_eq h.start), hfront]
  rw [← hcommon, ← before_eq_append_of_slice hother hslice]
  exact before_leads_source _ _

end

namespace Tags

/-- If the text of a row of pieces does not lead up to another text, there is a first piece with
which it does so no longer. -/
theorem exists_first_break {other : List Char} : ∀ {ps : List Piece} (lead : List Char),
    lead <+: other → ¬lead ++ sources ps <+: other → ∃ qs p rs, ps = qs ++ p :: rs ∧
      lead ++ sources qs <+: other ∧ ¬lead ++ sources qs ++ p.source <+: other
  | [], lead, hlead, hnot => absurd (by simpa using hlead) hnot
  | p :: ps, lead, hlead, hnot => by
    by_cases hnext : lead ++ p.source <+: other
    · rw [sources_cons, ← List.append_assoc] at hnot
      obtain ⟨qs, q, rs, rfl, hqs, hq⟩ := exists_first_break (lead ++ p.source) hnext hnot
      refine ⟨p :: qs, q, rs, rfl, ?_, ?_⟩
      · rwa [sources_cons, ← List.append_assoc]
      · rwa [sources_cons, ← List.append_assoc lead]
    · exact ⟨[], p, ps, rfl, by simpa using hlead, by simpa using hnext⟩

/-- If a text does not begin with a source, one of the tokens of the source leads out of what the
two have in common. -/
theorem exists_leadsOut {other : List Char} {ps : List Piece}
    (hascii : Dialect.isAscii (sources ps) = true) (hlen : (sources ps).length < UInt32.size)
    (id : UInt64) (hnot : ¬sources ps <+: other) :
    ∃ common ts t us, Cursor.tokens .baseline (sources ps) ⟨0, id⟩ ps = ts ++ t :: us ∧
      LeadsOut (sources ps) other common ts t us := by
  obtain ⟨qs, p, rs, rfl, hqs, hp⟩ := exists_first_break [] List.nil_prefix hnot
  have hsource : sources (qs ++ p :: rs) = sources qs ++ p.source ++ sources rs := by
    rw [sources_append, sources_cons, List.append_assoc]
  rw [hsource] at hascii hlen ⊢
  obtain ⟨hcount, hlead, -⟩ := offsets_of_isAscii hascii hlen
  simp only [isAscii_append, Bool.and_eq_true] at hascii
  obtain ⟨⟨hqsAscii, hpAscii⟩, hrsAscii⟩ := hascii
  simp only [List.length_append] at hlen
  have hpos : (Cursor.past ⟨0, id⟩ qs).pos = (sources qs).length := by
    rw [Cursor.past_eq, Nat.zero_add]
  have hstart := (toNat_offsets_token .baseline (sources qs ++ p.source ++ sources rs)
    (Cursor.past ⟨0, id⟩ qs) hpAscii (by omega)).1
  refine ⟨sources qs, _, _, _, Cursor.tokens_append .., ⟨?_, hqs, ?_, ?_, ?_, hp, ?_⟩⟩
  · rw [List.append_assoc]
    exact List.prefix_append _ _
  · intro u hu
    have hoffsets := (offsets_tokens _ _ ⟨0, id⟩ hqsAscii (by dsimp only; omega) u hu).2
    rwa [Nat.zero_add, ← unitCount_of_isAscii hqsAscii] at hoffsets
  · rw [hstart, hpos, unitCount_of_isAscii hqsAscii]
  · show before _ (UInt32.ofNat (Cursor.past ⟨0, id⟩ qs).pos + unitLen p.source) = _
    rw [hpos, ← hlead, ← unitLen_append, before_append _ hcount]
    rfl
  · intro u hu
    have hrest : ((Cursor.past ⟨0, id⟩ qs).step p).pos
        = (sources qs).length + p.source.length := by
      rw [Cursor.step, hpos]
    have hoffsets := (offsets_tokens _ _ _ hrsAscii (by omega) u hu).1
    rw [UInt32.le_iff_toNat_le, hstart]
    omega

/-! ## Checking against another text -/

section

variable {items : List Item} {source other : List Char} (id : UInt64)

/-- The tokens of the forest that a source is the writing of have different identities. -/
theorem nodup_id_flatten_nodes (hcanon : Item.CanonicalAll items)
    (hrender : Item.render items = source) (hlen : source.length < UInt32.size) :
    (((flatten (Item.nodes .baseline source ⟨0, id⟩ items)).map Node.token).map Token.id).Nodup := by
  rw [token_flatten_nodes]
  have hshort := length_le_length_sources (Item.sound_of_canonicalAll hcanon)
  rw [← Item.render, hrender] at hshort
  have hsizes : UInt32.size ≤ UInt64.size := by decide
  exact nodup_id_tokens .baseline _ (by omega)

theorem agrees_flatten_nodes (hrender : Item.render items = source)
    (hascii : Dialect.isAscii source = true) (hlen : source.length < UInt32.size) :
    ∀ t ∈ (flatten (Item.nodes .baseline source ⟨0, id⟩ items)).map Node.token,
      t.Agrees .baseline source := by
  rw [token_flatten_nodes]
  exact agrees_tokens .baseline hascii hlen _ _ [] hrender.symm rfl

/-- A text that begins with the source accepts the forest of the source. -/
theorem checkNodes_nodes_of_leads (hcanon : Item.CanonicalAll items)
    (hrender : Item.render items = source) (hascii : Dialect.isAscii source = true)
    (hlen : source.length < UInt32.size) (hother : unitCount other < UInt32.size)
    (hleads : source <+: other) :
    checkNodes .baseline other (Item.nodes .baseline source ⟨0, id⟩ items) = .ok () := by
  refine checkNodes_of_plain (fun n hn => plain_of_mem_flatten_nodes .baseline source hn)
    (fun t ht => ?_) (nodup_id_flatten_nodes id hcanon hrender hlen)
  have hcount := unitCount_of_isAscii hascii
  refine (agrees_flatten_nodes id hrender hascii hlen t ht).of_lead (by omega) hother
    List.prefix_rfl hleads ?_
  subst hrender
  rw [token_flatten_nodes] at ht
  have hoffsets := (offsets_tokens _ _ ⟨0, id⟩ hascii (by rwa [Nat.zero_add]) t ht).2
  rw [Nat.zero_add] at hoffsets
  rw [hcount]
  exact hoffsets

/-- Any other text is found out at the token that leads out of what it has in common with the
source. -/
theorem exists_checkNodes_nodes_of_not_leads (hcanon : Item.CanonicalAll items)
    (hrender : Item.render items = source) (hascii : Dialect.isAscii source = true)
    (hlen : source.length < UInt32.size) (hother : unitCount other < UInt32.size)
    (hnot : ¬source <+: other) :
    ∃ common ts t us expected,
      (flatten (Item.nodes .baseline source ⟨0, id⟩ items)).map Node.token = ts ++ t :: us ∧
        LeadsOut source other common ts t us ∧
        slice other t.startOffset t.endOffset = .ok expected ∧
        checkNodes .baseline other (Item.nodes .baseline source ⟨0, id⟩ items)
          = .error (.error (.rawMismatch t.id t.startOffset t.endOffset t.raw expected)) := by
  have hagrees := agrees_flatten_nodes id hrender hascii hlen
  have hcount := unitCount_of_isAscii hascii
  obtain ⟨common, ts, t, us, htokens, hout⟩ : ∃ common ts t us,
      (flatten (Item.nodes .baseline source ⟨0, id⟩ items)).map Node.token = ts ++ t :: us ∧
        LeadsOut source other common ts t us := by
    subst hrender
    rw [token_flatten_nodes]
    exact exists_leadsOut hascii hlen id hnot
  rw [htokens, List.forall_mem_append, List.forall_mem_cons] at hagrees
  obtain ⟨hbefore, ht, -⟩ := hagrees
  obtain ⟨expected, hslice, hne⟩ := hout.exists_slice_ne ht (by omega) hother
  refine ⟨common, ts, t, us, expected, htokens, hout, hslice, ?_⟩
  obtain ⟨lead, behind, hflat, hlead, hbehind⟩ := List.map_eq_append_iff.mp htokens
  obtain ⟨n, rest, rfl, rfl, -⟩ := List.map_eq_cons_iff.mp hbehind
  refine checkNodes_eq_rawMismatch hflat
    (fun n hn => plain_of_mem_flatten_nodes .baseline source hn)
    (nodup_id_flatten_nodes id hcanon hrender hlen) (fun m hm => ?_) ⟨ht.ordered, ht.length⟩
    hslice hne
  have hm : m.token ∈ ts := hlead ▸ List.mem_map_of_mem hm
  exact (hbefore m.token hm).of_lead (by omega) hother hout.inSource hout.inOther
    (hout.inside m.token hm)

end

end Tags

/-- A document parsed from a source passes the check against another text exactly when that text
begins with the source. If it does not, the check reports the first token of the source that leads
out of what the two have in common, with the text that stands in its place; so it never reports a
wrong length, a wrong position, an identity used twice or a wrong pear. -/
theorem check_eq_ok_iff_of_parse {d : Dialect} (hd : d = .markup ∨ d = .template)
    {source other : List Char} (hsource : unitCount source < UInt32.size - 1)
    (hother : unitCount other < UInt32.size - 1) {counter : Counter} {doc : Document}
    (h : (d.parse source counter).1 = .ok doc) :
    (doc.check other = .ok () ↔ source <+: other) ∧
      (¬source <+: other →
        ∃ t ∈ (flatten doc.nodes).map Node.token, ∃ expected,
          (∀ u ∈ (flatten doc.nodes).map Node.token, u.startOffset < t.startOffset →
            before source u.endOffset <+: other) ∧
          ¬before source t.endOffset <+: other ∧
          slice other t.startOffset t.endOffset = .ok expected ∧
          doc.check other = .error (.error
            (.rawMismatch t.id t.startOffset t.endOffset t.raw expected))) := by
  have hfits : unitCount source < UInt32.size := by omega
  have hfits' : unitCount other < UInt32.size := by omega
  obtain ⟨hascii, items, hcanon, hrender, rfl⟩ := (Dialect.parse_eq_ok_iff hfits).mp h
  have hlen := unitCount_of_isAscii hascii ▸ hfits
  rw [Document.check, Dialect.rules_eq_baseline hd]
  have hbreak := Tags.exists_checkNodes_nodes_of_not_leads counter.next hcanon hrender hascii hlen
    hfits'
  refine ⟨⟨fun hok => ?_, ?_⟩, fun hnot => ?_⟩
  · by_contra hnot
    obtain ⟨common, ts, t, us, expected, -, -, -, herror⟩ := hbreak hnot
    rw [hok] at herror
    cases herror
  · exact Tags.checkNodes_nodes_of_leads counter.next hcanon hrender hascii hlen hfits'
  · obtain ⟨common, ts, t, us, expected, htokens, hout, hslice, herror⟩ := hbreak hnot
    refine ⟨t, by rw [htokens]; simp, expected, fun u hu hlt => ?_, ?_, hslice, herror⟩
    · rw [htokens, List.mem_append, List.mem_cons] at hu
      rcases hu with hearlier | rfl | hlater
      · exact hout.before_leads hfits hfits' hearlier
      · exact absurd hlt (UInt32.lt_irrefl _)
      · exact absurd hlt (UInt32.not_lt.mpr (hout.later u hlater))
    · rw [hout.stop]
      exact hout.departs

/-- The other text goes on with an emoji where the source has a letter. -/
theorem check_eq_ok_iff_of_parse_emoji :
    let source := ['<', 'b', '>', 'x', '<', '/', 'b', '>']
    let other := ['<', 'b', '>', '😀', 'x']
    let items : List Tags.Item := [.element ['b'] [.text ['x']]]
    let doc : Document := ⟨Tags.Item.nodes .baseline source ⟨0, 1⟩ items, true⟩
    unitCount source < UInt32.size - 1 ∧ unitCount other < UInt32.size - 1 ∧
      (Dialect.markup.parse source {}).1 = .ok doc ∧
      (doc.check other = .ok () ↔ source <+: other) ∧ ¬source <+: other ∧
      ∃ t ∈ (flatten doc.nodes).map Node.token, ∃ expected,
        ¬before source t.endOffset <+: other ∧
        slice other t.startOffset t.endOffset = .ok expected ∧
        doc.check other = .error (.error
          (.rawMismatch t.id t.startOffset t.endOffset t.raw expected)) := by
  intro source other items doc
  have hsource : unitCount source < UInt32.size - 1 := by decide
  have hother : unitCount other < UInt32.size - 1 := by decide
  have hread : (Dialect.markup.parse source {}).1 = .ok doc :=
    (Dialect.parse_eq_ok_iff (by decide)).mpr ⟨by decide, items, by decide, rfl, rfl⟩
  have hnot : ¬source <+: other := by decide
  obtain ⟨hiff, hbreak⟩ := check_eq_ok_iff_of_parse (Or.inl rfl) hsource hother hread
  obtain ⟨t, ht, expected, -, hleads, hslice, herror⟩ := hbreak hnot
  exact ⟨hsource, hother, hread, hiff, hnot, t, ht, expected, hleads, hslice, herror⟩

end MarkupTree
