import MarkupTree.Proofs.Tags.Tiling
import MarkupTree.Proofs.Tags.Verdict

/-!
# Reading one text behind another

A text that is read and does not end in text leaves nothing open, so what stands behind it is read
as if it stood alone: the pieces, the forest or the flaw are the same, only further on. Text at the
seam could run on into what follows, which is why it must not stand there.

* `pieces_append`, `verdict_append` — pieces and verdict of the two texts together
* `moved_nodes` — a forest that begins further on has the same nodes, moved
* `Dialect.parse_append` — reading takes the two texts apart at the seam
-/

namespace MarkupTree

/-! ## Moved trees -/

/-- A token of the same text, `k` characters further on. -/
structure Token.Moved (k : Nat) (t u : Token) : Prop where
  raw : u.raw = t.raw
  start : u.startOffset.toNat = t.startOffset.toNat + k
  stop : u.endOffset.toNat = t.endOffset.toNat + k

/-- Two trees of the same shape without ghosts and attributes, the second `k` characters further
on: kinds, names and texts agree, and so it goes on in children and pears. -/
inductive Node.Moved (k : Nat) : Node → Node → Prop
  | mk (kind : NodeKind) (name : List Char) {t u : Token} {ns ms : List Node} {p q : Option Node}
      (token : t.Moved k u) (children : List.Forall₂ (Node.Moved k) ns ms)
      (pear : Option.Rel (Node.Moved k) p q) :
      Node.Moved k { kind, token := t, name, children := ns, pear := p }
        { kind, token := u, name, children := ms, pear := q }

namespace Tags

/-! ## The seam -/

theorem TextEnds.append {t r : List Char} (h : TextEnds t r) (hr : r ≠ []) (s : List Char) :
    TextEnds t (r ++ s) := by
  obtain ⟨hopens, hbrace⟩ := h
  obtain ⟨c, r, rfl⟩ := List.exists_cons_of_ne_nil hr
  rw [or_iff_right hr, opensMarkup_cons] at hopens
  rw [List.cons_append]
  refine ⟨Or.inr (opensMarkup_cons.mpr ?_), hbrace⟩
  rcases hopens with hlt | ⟨hc, hhead⟩
  · exact Or.inl hlt
  · exact Or.inr ⟨hc, by rw [List.head?_append, hhead]; rfl⟩

theorem Piece.EndsAt.append {p : Piece} {r : List Char} (h : p.EndsAt r) (hr : r ≠ [])
    (s : List Char) : p.EndsAt (r ++ s) := by
  cases p with
  | text chars => exact TextEnds.append h hr s
  | startTag _ | endTag _ | mustache _ => trivial

/-- A row that ends with a piece that anything may follow is delimited in front of anything. -/
theorem Delimited.extend : ∀ {ps : List Piece}, Delimited ps [] →
    (∀ p ∈ ps.getLast?, ∀ rest, p.EndsAt rest) → ∀ s, Delimited ps s
  | [], _, _, _ => trivial
  | [p], ⟨hsound, _, _⟩, hlast, s => ⟨hsound, hlast p rfl _, trivial⟩
  | p :: q :: ps, ⟨hsound, hends, hdelim⟩, hlast, s => by
    rw [List.append_nil] at hends
    have hne : sources (q :: ps) ≠ [] := by
      rw [sources_cons]
      exact List.append_ne_nil_of_left_ne_nil (source_ne_nil hdelim.1) _
    rw [List.getLast?_cons_cons] at hlast
    exact ⟨hsound, hends.append hne s, hdelim.extend hlast s⟩

theorem Delimited.append {rest : List Char} {qs : List Piece} (hqs : Delimited qs rest) :
    ∀ {ps : List Piece}, Delimited ps (sources qs ++ rest) → Delimited (ps ++ qs) rest
  | [], _ => hqs
  | p :: ps, ⟨hsound, hends, hdelim⟩ => by
    have hends' : p.EndsAt (sources (ps ++ qs) ++ rest) := by
      rw [sources_append, List.append_assoc]
      exact hends
    exact ⟨hsound, hends', Delimited.append hqs hdelim⟩

/-- Behind a row that anything may follow, a text has its own pieces. -/
theorem pieces_append {ps : List Piece} (hps : Delimited ps [])
    (hlast : ∀ p ∈ ps.getLast?, ∀ rest, p.EndsAt rest) (s : List Char) :
    pieces (sources ps ++ s) = (ps ++ (pieces s).1, (pieces s).2) := by
  obtain ⟨hsource, hdelim, hstuck⟩ := pieces_spec s
  rw [pieces_eq_iff, sources_append, List.append_assoc, hsource]
  exact ⟨rfl, hdelim.append (hps.extend hlast _), hstuck⟩

/-! ## A draft behind a forest -/

namespace Draft

/-- The draft with the items of a forest in front of its own. -/
def behind (items : List Item) (d : Draft) : Draft := { d with roots := d.roots ++ items.reverse }

variable (items : List Item) (d : Draft)

theorem pieces_behind : (d.behind items).pieces = Item.piecesAll items ++ d.pieces := by
  rw [behind, pieces, pieces, List.reverse_append, List.reverse_reverse, Item.piecesAll_append,
    List.append_assoc]

theorem length_behind : (d.behind items).length = (Item.render items).length + d.length := by
  rw [length, pieces_behind, sources_append, List.length_append]
  rfl

theorem add_behind (i : Item) : (d.behind items).add i = (d.add i).behind items := by
  obtain ⟨opened, roots⟩ := d
  cases opened with
  | nil => rfl
  | cons o os => rfl

/-- What stands in front changes nothing in a step. -/
theorem accept_behind (p : Piece) :
    (d.behind items).accept p = (d.accept p).map (behind items) := by
  cases p with
  | startTag name => rfl
  | endTag name =>
    obtain ⟨opened, roots⟩ := d
    cases opened with
    | nil => rfl
    | cons o os =>
      rw [accept, accept, close, close, behind]
      dsimp only
      split
      · exact congrArg Except.ok (add_behind items ⟨os, roots⟩ _)
      · rfl
  | mustache body => exact congrArg Except.ok (add_behind items d _)
  | text chars => exact congrArg Except.ok (add_behind items d _)

/-- Nor in a run. -/
theorem read_behind : ∀ (ps : List Piece) (d : Draft),
    (d.behind items).read ps
      = match d.read ps with
        | .ok d' => .ok (d'.behind items)
        | .error (mistake, d') => .error (mistake, d'.behind items)
  | [], _ => rfl
  | p :: ps, d => by
    rw [read, read, accept_behind]
    cases d.accept p with
    | error mistake => rfl
    | ok d' => exact read_behind ps d'

theorem finish_behind :
    (d.behind items).finish
      = match d.finish with
        | .ok js => .ok (items ++ js)
        | .error flaw => .error ⟨flaw.mistake, (Item.render items).length + flaw.pos⟩ := by
  obtain ⟨opened, roots⟩ := d
  cases opened with
  | nil =>
    rw [finish, finish, behind]
    simp
  | cons o os =>
    rw [finish, finish, behind]
    dsimp only
    rw [← length_behind]
    rfl

end Draft

/-! ## The verdict -/

/-- A forest does not end in text. -/
def Item.Closed (items : List Item) : Prop := ∀ i ∈ items.getLast?, ∀ chars, i ≠ .text chars

theorem Item.Closed.endsAt {items : List Item} (h : Closed items) :
    ∀ p ∈ (piecesAll items).getLast?, ∀ rest, p.EndsAt rest := by
  rcases List.eq_nil_or_concat' items with rfl | ⟨is, i, rfl⟩
  · exact fun _ h => nomatch h
  · have hi := h i (by simp)
    intro p hp rest
    rw [piecesAll_append, piecesAll, piecesAll, List.append_nil, List.getLast?_append,
      getLast?_pieces] at hp
    rw [← Option.some.inj hp]
    cases i with
    | text chars => exact absurd rfl (hi chars)
    | element _ _ | mustache _ => trivial

/-- Behind a forest that does not end in text, a text has its own verdict: its forest follows, or its
flaw lies further on. -/
theorem verdict_append {items : List Item} (hcanon : Item.CanonicalAll items)
    (hclosed : Item.Closed items) (s : List Char) :
    verdict (Item.render items ++ s)
      = match verdict s with
        | .ok js => .ok (items ++ js)
        | .error flaw => .error ⟨flaw.mistake, (Item.render items).length + flaw.pos⟩ := by
  have hdelim : Delimited (Item.piecesAll items) [] :=
    delimited_nil_iff.mpr ⟨Item.sound_of_canonicalAll hcanon, (Item.canonicalAll_iff.mp hcanon).2⟩
  -- the pieces of the forest leave a draft that holds just the forest
  have hread : Draft.read {} (Item.piecesAll items) = .ok (Draft.behind items {}) :=
    Draft.read_eq_closed_iff.mpr (by rw [List.nil_append, List.reverse_reverse])
  rw [verdict, verdict, Item.render, pieces_append hdelim hclosed.endsAt, Draft.read_append, hread,
    Except.bind, Draft.read_behind]
  cases Draft.read {} (pieces s).1 with
  | error e =>
    dsimp only
    rw [Draft.length_behind, Item.render]
  | ok d =>
    dsimp only
    cases unterminated? (pieces s).2 with
    | some u =>
      dsimp only
      rw [Draft.length_behind, Item.render]
    | none => exact Draft.finish_behind items d

/-! ## Nodes further on -/

section

variable (rules : PositionRules) (source other : List Char) {k : Nat}

theorem moved_token {p : Piece} {c c' : Cursor} (hpos : c'.pos = c.pos + k)
    (hascii : Dialect.isAscii p.source = true) (hlen : c'.pos + p.source.length < UInt32.size) :
    (c.token rules source p).Moved k (c'.token rules other p) := by
  obtain ⟨hstart, hstop⟩ := toNat_offsets_token rules source c hascii (by omega)
  obtain ⟨hstart', hstop'⟩ := toNat_offsets_token rules other c' hascii hlen
  exact ⟨rfl, by omega, by omega⟩

theorem Cursor.pos_past {c c' : Cursor} (hpos : c'.pos = c.pos + k) (ps : List Piece) :
    (c'.past ps).pos = (c.past ps).pos + k := by
  rw [past_eq, past_eq]
  dsimp only
  omega

mutual

theorem moved_node : ∀ (i : Item) {c c' : Cursor}, c'.pos = c.pos + k →
    Dialect.isAscii (sources i.pieces) = true →
      c'.pos + (sources i.pieces).length < UInt32.size →
        (i.node rules source c).Moved k (i.node rules other c')
  | .element name items, c, c', hpos, hascii, hlen => by
    rw [Item.pieces, sources_cons, sources_append, sources_cons, sources_nil,
      List.append_nil] at hascii hlen
    rw [isAscii_append, isAscii_append, Bool.and_eq_true, Bool.and_eq_true] at hascii
    obtain ⟨hstart, hinside, hstop⟩ := hascii
    rw [List.length_append, List.length_append] at hlen
    -- the contents begin behind the start tag, and the end tag behind the contents
    have hstep : (c'.step (.startTag name)).pos = (c.step (.startTag name)).pos + k := by
      rw [Cursor.step, Cursor.step, hpos]
      dsimp only
      omega
    have hpast := Cursor.pos_past hstep (Item.piecesAll items)
    have hend : ((c'.step (.startTag name)).past (Item.piecesAll items)).pos
        = c'.pos + (Piece.startTag name).source.length
          + (sources (Item.piecesAll items)).length := by
      rw [Cursor.past_eq, Cursor.step]
    have hcontents := moved_nodes items hstep hinside (by rw [Cursor.step]; dsimp only; omega)
    have hpear := moved_token rules source other hpast hstop (by omega)
    exact .mk .startTag name (moved_token rules source other hpos hstart (by omega)) hcontents
      (.some (.mk .endTag name hpear .nil .none))
  | .mustache body, c, c', hpos, hascii, hlen => by
    rw [Item.pieces, sources_cons, sources_nil, List.append_nil] at hascii hlen
    exact .mk .block [] (moved_token rules source other hpos hascii hlen) .nil .none
  | .text chars, c, c', hpos, hascii, hlen => by
    rw [Item.pieces, sources_cons, sources_nil, List.append_nil] at hascii hlen
    exact .mk .text _ (moved_token rules source other hpos hascii hlen) .nil .none

/-- A forest that begins `k` characters further on has the same nodes, moved by as much. -/
theorem moved_nodes : ∀ (items : List Item) {c c' : Cursor}, c'.pos = c.pos + k →
    Dialect.isAscii (sources (Item.piecesAll items)) = true →
      c'.pos + (sources (Item.piecesAll items)).length < UInt32.size →
        List.Forall₂ (Node.Moved k) (Item.nodes rules source c items)
          (Item.nodes rules other c' items)
  | [], _, _, _, _, _ => .nil
  | i :: is, c, c', hpos, hascii, hlen => by
    rw [Item.piecesAll, sources_append] at hascii hlen
    rw [isAscii_append, Bool.and_eq_true] at hascii
    rw [List.length_append] at hlen
    have hrest : (c'.past i.pieces).pos + (sources (Item.piecesAll is)).length < UInt32.size := by
      rw [Cursor.past_eq]
      dsimp only
      omega
    exact .cons (moved_node i hpos hascii.1 (by omega))
      (moved_nodes is (Cursor.pos_past hpos _) hascii.2 hrest)

end

/-- A forest whose nodes do not end with a text node does not end in text. -/
theorem closed_of_nodes {c : Cursor} {items : List Item}
    (h : ∀ n ∈ (Item.nodes rules source c items).getLast?, n.kind ≠ .text) :
    Item.Closed items := by
  rcases List.eq_nil_or_concat' items with rfl | ⟨is, i, rfl⟩
  · exact fun _ h => nomatch h
  · rw [Item.nodes_append, Item.nodes, Item.nodes, List.getLast?_concat] at h
    intro j hj chars
    rw [List.getLast?_concat] at hj
    rw [← Option.some.inj hj]
    rintro rfl
    exact h _ rfl rfl

end

end Tags

namespace Dialect

/-- Reading one source behind another that is read to its end and does not end in text. What the
second alone is read as follows the nodes of the first, further on by the length of the first; its
error is the error, further on by as much; and it is still refused if it is not in ASCII. -/
theorem parse_append {d : Dialect} {s t : List Char}
    (hlen : Text.unitCount (s ++ t) < UInt32.size - 1) {c₁ : Counter} {d₁ : Document}
    (h₁ : (d.parse s c₁).1 = .ok d₁) (hlast : ∀ n ∈ d₁.nodes.getLast?, n.kind ≠ .text)
    (c₂ c : Counter) :
    (∀ d₂, (d.parse t c₂).1 = .ok d₂ →
        ∃ doc ns ms, (d.parse (s ++ t) c).1 = .ok doc ∧ doc.nodes = ns ++ ms ∧
          List.Forall₂ (Node.Moved 0) d₁.nodes ns ∧
          List.Forall₂ (Node.Moved s.length) d₂.nodes ms) ∧
      (∀ detail offset, (d.parse t c₂).1 = .error (.error (.invalidSource detail (some offset))) →
        ∃ offset', offset'.toNat = offset.toNat + s.length ∧
          (d.parse (s ++ t) c).1 = .error (.error (.invalidSource detail (some offset')))) ∧
      (isAscii t = false →
        (d.parse (s ++ t) c).1 = .error (.error (.unsupported "non-ASCII source"))) := by
  have hfits : Text.unitCount s + Text.unitCount t < UInt32.size := by
    rw [Text.unitCount_append] at hlen
    omega
  obtain ⟨hascii, items, hcanon, rfl, rfl⟩ := (parse_eq_ok_iff (by omega)).mp h₁
  have hverdict := Tags.verdict_append hcanon (Tags.closed_of_nodes _ _ hlast) t
  have hboth : (d.parse (Tags.Item.render items ++ t) c).1 = _ := parse_eq_verdict (by omega) c
  rw [isAscii_append, hascii, Bool.true_and, hverdict] at hboth
  rw [Text.unitCount_of_isAscii hascii] at hfits
  refine ⟨?_, ?_, ?_⟩
  · intro d₂ h₂
    obtain ⟨hascii₂, js, hcanon₂, rfl, rfl⟩ := (parse_eq_ok_iff (by omega)).mp h₂
    rw [Text.unitCount_of_isAscii hascii₂] at hfits
    rw [if_pos hascii₂, (Tags.verdict_eq_ok_iff hascii₂).mpr ⟨hcanon₂, rfl⟩] at hboth
    have hpast : ((Tags.Cursor.mk 0 c.next).past (Tags.Item.piecesAll items)).pos
        = 0 + (Tags.Item.render items).length := by
      rw [Tags.Cursor.past_eq]
      rfl
    have hfirst : 0 + (Tags.Item.render items).length < UInt32.size := by omega
    refine ⟨_, _, _, hboth, Tags.Item.nodes_append _ _ _ _ _, ?_, ?_⟩
    · exact Tags.moved_nodes _ _ _ items rfl hascii hfirst
    · exact Tags.moved_nodes _ _ _ js hpast hascii₂
        (by rw [hpast, ← Tags.Item.render]; omega)
  · intro detail offset h₂
    rw [parse_eq_verdict (by omega)] at h₂
    split at h₂
    · next hascii₂ =>
      rw [if_pos hascii₂] at hboth
      cases hflaw : Tags.verdict t with
      | ok js => rw [hflaw] at h₂; cases h₂
      | error flaw =>
        rw [hflaw] at h₂ hboth
        cases h₂
        have hpos := Tags.pos_lt_of_verdict hflaw
        rw [Text.unitCount_of_isAscii hascii₂] at hfits
        refine ⟨UInt32.ofNat ((Tags.Item.render items).length + flaw.pos), ?_, hboth⟩
        rw [UInt32.toNat_ofNat_of_lt' (by omega), UInt32.toNat_ofNat_of_lt' (by omega),
          Nat.add_comm]
    · cases h₂
  · intro hascii₂
    rw [hboth, if_neg (by simp [hascii₂])]

/-- Behind an element, a mustache and text are added to its tree, and a stray end tag is found eight
characters into the source instead of one. -/
theorem parse_append_element :
    let s := ['<', 'b', '>', '<', '/', 'b', '>']
    let t := ['{', '{', 'x', '}', '}', 'a']
    let u := ['x', '<', '/', 'i', '>']
    let first : Document := ⟨Tags.Item.nodes .baseline s ⟨0, 1⟩ [.element ['b'] []], true⟩
    let second : Document := ⟨Tags.Item.nodes .baseline t ⟨0, 1⟩ [.mustache ['x'], .text ['a']], true⟩
    Text.unitCount (s ++ t) < UInt32.size - 1 ∧ Text.unitCount (s ++ u) < UInt32.size - 1 ∧
      (markup.parse s {}).1 = .ok first ∧ (∀ n ∈ first.nodes.getLast?, n.kind ≠ .text) ∧
      (∃ doc ns ms, (markup.parse (s ++ t) {}).1 = .ok doc ∧ doc.nodes = ns ++ ms ∧
        List.Forall₂ (Node.Moved 0) first.nodes ns ∧
        List.Forall₂ (Node.Moved 7) second.nodes ms) ∧
      (markup.parse u {}).1 = .error (.error (.invalidSource "stray </i>" (some 1))) ∧
      ∃ offset', offset'.toNat = 8 ∧ (markup.parse (s ++ u) {}).1
        = .error (.error (.invalidSource "stray </i>" (some offset'))) := by
  intro s t u first second
  have ht : Text.unitCount (s ++ t) < UInt32.size - 1 := by decide
  have hu : Text.unitCount (s ++ u) < UInt32.size - 1 := by decide
  have hfirst : (markup.parse s {}).1 = .ok first :=
    (parse_eq_ok_iff (by decide)).mpr ⟨by decide, _, by decide, rfl, rfl⟩
  have hlast : ∀ n ∈ first.nodes.getLast?, n.kind ≠ .text := by
    rintro n hn
    rw [← Option.some.inj hn]
    decide
  have hsecond : (markup.parse t {}).1 = .ok second :=
    (parse_eq_ok_iff (by decide)).mpr ⟨by decide, _, by decide, rfl, rfl⟩
  have hstray : (markup.parse u {}).1
      = .error (.error (.invalidSource "stray </i>" (some 1))) := by
    have htext : Tags.next u = .ok (.text ['x'], ['<', '/', 'i', '>']) := rfl
    have htag : Tags.next ['<', '/', 'i', '>'] = .ok (.endTag ['i'], []) := rfl
    have hverdict : Tags.verdict u = .error ⟨.stray ['i'], 1⟩ := by
      rw [Tags.verdict, Tags.pieces_of_next (List.cons_ne_nil _ _) htext,
        Tags.pieces_of_next (List.cons_ne_nil _ _) htag, Tags.pieces_nil]
      rfl
    rw [parse_eq_verdict (by decide), hverdict]
    rfl
  exact ⟨ht, hu, hfirst, hlast, (parse_append ht hfirst hlast {} {}).1 second hsecond, hstray,
    (parse_append hu hfirst hlast {} {}).2.1 _ _ hstray⟩

end Dialect

end MarkupTree
