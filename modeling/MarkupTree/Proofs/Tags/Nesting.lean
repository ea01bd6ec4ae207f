import MarkupTree.Proofs.Conformance.Pears
import MarkupTree.Proofs.Tags.Tiling

/-!
# Depth and nesting

How deep a node of a parsed source is visited can be counted in the source: every start tag in front
of it goes one level down and every end tag one level up. The pieces of a forest are balanced, so
what a start tag opens stays open until its own end tag, and the pear of an element is the end tag
of the start tag that was opened last and is not closed.

* `balanced_piecesAll` — in the pieces of a forest start tags and end tags are balanced
* `prefix_inFront_iff` — which pieces lie in front of an offset
* `exists_item_of_mem_preorderAll` — what is visited, and how deep
* `closedBefore_iff` — an element is closed where its end tag ends
* `parse_nesting` — depths and pears of a parsed source, counted in the source
-/

namespace MarkupTree

namespace Tags

/-! ## Balanced rows -/

/-- The number of start tags in a row. -/
def startTags (ps : List Piece) : Nat := ps.countP fun
  | .startTag _ => true
  | _ => false

/-- The number of end tags in a row. -/
def endTags (ps : List Piece) : Nat := ps.countP fun
  | .endTag _ => true
  | _ => false

section

variable (name : List Char) (ps qs : List Piece)

@[simp] theorem startTags_nil : startTags [] = 0 := rfl

@[simp] theorem endTags_nil : endTags [] = 0 := rfl

@[simp] theorem startTags_append : startTags (ps ++ qs) = startTags ps + startTags qs :=
  List.countP_append

@[simp] theorem endTags_append : endTags (ps ++ qs) = endTags ps + endTags qs :=
  List.countP_append

@[simp] theorem startTags_cons_startTag :
    startTags (.startTag name :: ps) = startTags ps + 1 := List.countP_cons_of_pos rfl

@[simp] theorem endTags_cons_startTag :
    endTags (.startTag name :: ps) = endTags ps := List.countP_cons_of_neg Bool.false_ne_true

@[simp] theorem startTags_cons_endTag :
    startTags (.endTag name :: ps) = startTags ps := List.countP_cons_of_neg Bool.false_ne_true

@[simp] theorem endTags_cons_endTag :
    endTags (.endTag name :: ps) = endTags ps + 1 := List.countP_cons_of_pos rfl

end

/-- No beginning of a row has more end tags than start tags, and the whole row has as many. -/
structure Balanced (ps : List Piece) : Prop where
  open_le : ∀ front rest, ps = front ++ rest → endTags front ≤ startTags front
  settled : endTags ps = startTags ps

theorem balanced_nil : Balanced [] where
  open_le front rest h := by
    rw [(List.append_eq_nil_iff.mp h.symm).1]
    exact Nat.le_refl 0
  settled := rfl

theorem Balanced.append {ps qs : List Piece} (hps : Balanced ps) (hqs : Balanced qs) :
    Balanced (ps ++ qs) where
  open_le front rest h := by
    rcases List.append_eq_append_iff.mp h with ⟨more, rfl, hmore⟩ | ⟨more, hmore, -⟩
    · -- the first row is settled, so all that counts is the beginning of the second
      have := hqs.open_le more rest hmore
      have := hps.settled
      rw [startTags_append, endTags_append]
      omega
    · exact hps.open_le front more hmore
  settled := by rw [startTags_append, endTags_append, hps.settled, hqs.settled]

/-- A piece that is no tag is balanced. -/
theorem balanced_singleton {p : Piece} (hstart : startTags [p] = 0) (hend : endTags [p] = 0) :
    Balanced [p] where
  open_le front rest h := by
    have hcount := congrArg endTags h
    rw [hend, endTags_append] at hcount
    omega
  settled := by rw [hstart, hend]

/-- Tags around a balanced row are balanced. -/
theorem Balanced.element {ps : List Piece} (h : Balanced ps) (name : List Char) :
    Balanced (.startTag name :: (ps ++ [.endTag name])) where
  open_le front rest hrow := by
    cases front with
    | nil => exact Nat.le_refl 0
    | cons p front =>
      obtain ⟨rfl, hinside⟩ := List.cons.inj hrow
      rw [startTags_cons_startTag, endTags_cons_startTag]
      rcases List.append_eq_append_iff.mp hinside with ⟨more, rfl, hmore⟩ | ⟨more, hmore, -⟩
      · -- what goes beyond the row is the end tag at most
        have hlast := congrArg endTags hmore
        rw [endTags_cons_endTag, endTags_nil, endTags_append] at hlast
        have := h.settled
        rw [startTags_append, endTags_append]
        omega
      · have := h.open_le front more hmore
        omega
  settled := by
    have := h.settled
    simp only [startTags_cons_startTag, startTags_append, startTags_cons_endTag, startTags_nil,
      endTags_cons_startTag, endTags_append, endTags_cons_endTag, endTags_nil]
    omega

mutual

theorem balanced_pieces : ∀ i : Item, Balanced i.pieces
  | .element name items => (balanced_piecesAll items).element name
  | .mustache _ => balanced_singleton rfl rfl
  | .text _ => balanced_singleton rfl rfl

/-- In the pieces of a forest start tags and end tags are balanced. -/
theorem balanced_piecesAll : ∀ items : List Item, Balanced (Item.piecesAll items)
  | [] => balanced_nil
  | i :: is => (balanced_pieces i).append (balanced_piecesAll is)

end

/-! ## The pieces in front of an offset -/

/-- The pieces of a row that end at or in front of an offset. A source that is parsed is ASCII, so an
offset counts characters here. -/
def inFront (o : Nat) : List Piece → List Piece
  | [] => []
  | p :: ps => if p.source.length ≤ o then p :: inFront (o - p.source.length) ps else []

theorem inFront_leads : ∀ (o : Nat) (ps : List Piece), inFront o ps <+: ps
  | _, [] => List.prefix_rfl
  | o, p :: ps => by
    rw [inFront]
    split
    · exact List.cons_prefix_cons.mpr ⟨rfl, inFront_leads _ ps⟩
    · exact List.nil_prefix

/-- A beginning of a row lies in front of an offset if its text does. -/
theorem prefix_inFront_iff : ∀ {front ps : List Piece} {o : Nat}, front <+: ps →
    (front <+: inFront o ps ↔ (sources front).length ≤ o)
  | [], _, _, _ => iff_of_true List.nil_prefix (Nat.zero_le _)
  | _ :: _, [], _, h => absurd h (by simp)
  | p :: front, q :: ps, o, h => by
    obtain ⟨rfl, hfront⟩ := List.cons_prefix_cons.mp h
    rw [inFront, sources_cons, List.length_append]
    split
    · rw [List.cons_prefix_cons, and_iff_right rfl, prefix_inFront_iff hfront]
      omega
    · refine iff_of_false (by simp) ?_
      omega

theorem length_sources_inFront_le (o : Nat) (ps : List Piece) :
    (sources (inFront o ps)).length ≤ o :=
  (prefix_inFront_iff (inFront_leads o ps)).mp List.prefix_rfl

/-- A row has no more start tags than characters. -/
theorem startTags_le_length_sources : ∀ ps : List Piece, startTags ps ≤ (sources ps).length
  | [] => Nat.le_refl 0
  | p :: ps => by
    have hrest := startTags_le_length_sources ps
    rw [sources_cons, List.length_append]
    cases p with
    | startTag name =>
      rw [startTags_cons_startTag, Piece.source, List.length_cons]
      omega
    | endTag _ | mustache _ | text _ => exact Nat.le_add_left_of_le hrest

/-- In front of the place where a beginning of a row ends there is just that beginning. -/
theorem inFront_append {front rest : List Piece} (hsound : ∀ p ∈ front ++ rest, p.Sound) :
    inFront (sources front).length (front ++ rest) = front := by
  obtain ⟨more, hmore⟩ := (prefix_inFront_iff (List.prefix_append front rest)).mpr (Nat.le_refl _)
  have hlen := length_sources_inFront_le (sources front).length (front ++ rest)
  rw [← hmore, sources_append, List.length_append] at hlen
  cases more with
  | nil => rw [← hmore, List.append_nil]
  | cons p more =>
    -- a further piece is not empty
    have hp : p ∈ front ++ rest := (inFront_leads _ _).subset (by rw [← hmore]; simp)
    have := List.length_pos_iff.mpr (source_ne_nil (hsound p hp))
    rw [sources_cons, List.length_append] at hlen
    omega

/-! ## Where the visited nodes stand -/

section

variable (rules : PositionRules) (source : List Char)

/-- A visit belongs to an item that stands in a row behind `front`: it is the visit of the node of
that item, or else of the pear of the node. Its level is the one to which the tags in front of the
item lead. -/
structure Belongs (c : Cursor) (depth : Nat) (row : List Piece) (visited : List (Node × UInt64))
    (v : Node × UInt64) (i : Item) (front rest : List Piece) : Prop where
  row_eq : row = front ++ (i.pieces ++ rest)
  level_eq : ∃ d, v.2 = .ofNat d ∧ d + endTags front = depth + startTags front
  owner_mem : (i.node rules source (c.past front), v.2) ∈ visited
  node_eq : v.1 = i.node rules source (c.past front) ∨
    (i.node rules source (c.past front)).pear = some v.1

variable {rules source}

/-- What belongs to an item of a row belongs to it in a longer row, behind more tags and so at
another level. -/
theorem Belongs.within {c : Cursor} {depth inner : Nat} {row : List Piece}
    {visited all : List (Node × UInt64)} {v : Node × UInt64} {i : Item} {front rest : List Piece}
    (lead : List Piece) (h : Belongs rules source (c.past lead) inner row visited v i front rest)
    (hlevel : inner + endTags lead = depth + startTags lead) (hvisited : visited ⊆ all)
    (behind : List Piece) :
    Belongs rules source c depth (lead ++ (row ++ behind)) all v i (lead ++ front)
      (rest ++ behind) where
  row_eq := by
    rw [h.row_eq]
    simp only [List.append_assoc]
  level_eq := by
    obtain ⟨d, hd, hcount⟩ := h.level_eq
    refine ⟨d, hd, ?_⟩
    rw [startTags_append, endTags_append]
    omega
  owner_mem := by
    rw [Cursor.past_append]
    exact hvisited h.owner_mem
  node_eq := by
    rw [Cursor.past_append]
    exact h.node_eq

/-- In a row from the top that is shorter than a word can count, the level is a difference of
numbers. -/
theorem Belongs.toNat_level {c : Cursor} {row : List Piece} {visited : List (Node × UInt64)}
    {v : Node × UInt64} {i : Item} {front rest : List Piece}
    (h : Belongs rules source c 0 row visited v i front rest)
    (hlen : (sources row).length < UInt32.size) :
    v.2.toNat + endTags front = startTags front := by
  obtain ⟨d, hd, hcount⟩ := h.level_eq
  rw [h.row_eq, sources_append, List.length_append] at hlen
  have hfew := startTags_le_length_sources front
  have hsmall : d < UInt64.size := by
    rw [UInt32.size] at hlen
    rw [UInt64.size]
    omega
  rw [hd, UInt64.toNat_ofNat_of_lt' hsmall, hcount, Nat.zero_add]

variable (rules source)

mutual

theorem exists_item_of_mem_preorder : ∀ (i : Item) (c : Cursor) (depth : Nat),
    ∀ v ∈ (i.node rules source c).preorder {} (.ofNat depth), ∃ j front rest,
      Belongs rules source c depth i.pieces ((i.node rules source c).preorder {} (.ofNat depth)) v
        j front rest
  | .element name items, c, depth => by
    intro v hv
    have hnext : UInt64.ofNat depth + 1 = .ofNat (depth + 1) := (UInt64.ofNat_add depth 1).symm
    rw [preorder_element, hnext] at hv ⊢
    rcases List.mem_cons.mp hv with rfl | hv
    · exact ⟨.element name items, [], [], by simp, ⟨depth, rfl, rfl⟩, List.mem_cons_self,
        Or.inl rfl⟩
    · rcases List.mem_append.mp hv with hinside | hpear
      · obtain ⟨j, front, rest, hj⟩ :=
          exists_item_of_mem_preorderAll items (c.step (.startTag name)) (depth + 1) v hinside
        refine ⟨j, _, _, hj.within [.startTag name] ?_ ?_ [.endTag name]⟩
        · simp
        · exact fun w hw => List.mem_cons_of_mem _ (List.mem_append_left _ hw)
      · rw [List.mem_singleton.mp hpear]
        exact ⟨.element name items, [], [], by simp, ⟨depth, rfl, rfl⟩, List.mem_cons_self,
          Or.inr rfl⟩
  | .mustache body, c, depth => by
    intro v hv
    rw [List.mem_singleton.mp hv]
    exact ⟨.mustache body, [], [], rfl, ⟨depth, rfl, rfl⟩, List.mem_cons_self, Or.inl rfl⟩
  | .text chars, c, depth => by
    intro v hv
    rw [List.mem_singleton.mp hv]
    exact ⟨.text chars, [], [], rfl, ⟨depth, rfl, rfl⟩, List.mem_cons_self, Or.inl rfl⟩

/-- Whatever a walk of a placed forest visits belongs to an item that stands in the row of its
pieces. -/
theorem exists_item_of_mem_preorderAll : ∀ (items : List Item) (c : Cursor) (depth : Nat),
    ∀ v ∈ Node.preorderAll {} (.ofNat depth) (Item.nodes rules source c items), ∃ j front rest,
      Belongs rules source c depth (Item.piecesAll items)
        (Node.preorderAll {} (.ofNat depth) (Item.nodes rules source c items)) v j front rest
  | [], _, _ => fun _ hv => absurd hv List.not_mem_nil
  | i :: is, c, depth => by
    intro v hv
    rw [Item.nodes, Node.preorderAll] at hv ⊢
    rcases List.mem_append.mp hv with hfirst | hrest
    · obtain ⟨j, front, rest, hj⟩ := exists_item_of_mem_preorder i c depth v hfirst
      exact ⟨j, _, _, hj.within [] rfl (List.subset_append_left _ _) _⟩
    · obtain ⟨j, front, rest, hj⟩ := exists_item_of_mem_preorderAll is _ depth v hrest
      -- the first item is balanced, so behind it the level is what it was
      have hlevel : depth + endTags i.pieces = depth + startTags i.pieces := by
        rw [(balanced_pieces i).settled]
      have hbehind := hj.within i.pieces hlevel
        (List.subset_append_right ((i.node rules source c).preorder {} (.ofNat depth)) _) []
      rw [List.append_nil, List.append_nil] at hbehind
      exact ⟨j, _, _, hbehind⟩

end

end

/-! ## Nesting in a text -/

/-- The number of start tags of a text that end at or in front of an offset. -/
def opensBefore (s : List Char) (o : Nat) : Nat := startTags (inFront o (pieces s).1)

/-- The number of end tags of a text that end at or in front of an offset. -/
def closesBefore (s : List Char) (o : Nat) : Nat := endTags (inFront o (pieces s).1)

/-- What a start tag opens is closed again up to an offset: at some place between the end of the tag
and the offset no more is open than in front of the tag. -/
def ClosedBefore (s : List Char) (t : Token) (o : Nat) : Prop :=
  ∃ k, t.endOffset.toNat ≤ k ∧ k ≤ o ∧
    opensBefore s k + closesBefore s t.startOffset.toNat
      ≤ opensBefore s t.startOffset.toNat + closesBefore s k

/-- An end tag closes the element that is opened last in front of it and not closed there. -/
structure ClosesLast (s : List Char) (visited : List (Node × UInt64)) (start stop : Node) :
    Prop where
  pear : start.pear = some stop
  kind : stop.kind = .endTag
  name : stop.name = start.name
  opened : start.token.startOffset < stop.token.startOffset
  stillOpen : ¬ClosedBefore s start.token stop.token.startOffset.toNat
  innermost : ∀ v ∈ visited, v.1.kind = .startTag →
    start.token.startOffset < v.1.token.startOffset →
      v.1.token.startOffset < stop.token.startOffset →
        ClosedBefore s v.1.token stop.token.startOffset.toNat

theorem length_sources_mono {front ps : List Piece} (h : front <+: ps) :
    (sources front).length ≤ (sources ps).length := by
  obtain ⟨more, rfl⟩ := h
  rw [sources_append, List.length_append]
  exact Nat.le_add_right _ _

/-- How a visited node of a tree stands in the nesting of its source. -/
structure NestedIn (s : List Char) (visited : List (Node × UInt64)) (v : Node × UInt64) : Prop where
  kind : v.1.kind = .startTag ∨ v.1.kind = .endTag ∨ v.1.kind = .text ∨ v.1.kind = .block
  /-- A node is as deep as there are start tags in front of it that no end tag in front answers. -/
  level : v.1.kind ≠ .endTag → v.2.toNat + closesBefore s v.1.token.startOffset.toNat
    = opensBefore s v.1.token.startOffset.toNat
  /-- An end tag is one level higher, where its start tag is. -/
  levelEnd : v.1.kind = .endTag → v.2.toNat + 1 + closesBefore s v.1.token.startOffset.toNat
    = opensBefore s v.1.token.startOffset.toNat
  endTag : v.1.kind = .endTag → ∃ start, (start, v.2) ∈ visited ∧ start.kind = .startTag ∧
    ClosesLast s visited start v.1
  startTag : v.1.kind = .startTag → ∃ stop, (stop, v.2) ∈ visited ∧
    ClosesLast s visited v.1 stop ∧
      ∀ o, ClosedBefore s v.1.token o ↔ stop.token.endOffset.toNat ≤ o
  leaf : v.1.kind ≠ .startTag → v.1.children = [] ∧ v.1.pear = none

/-- Of two beginnings of a row, the one with the shorter text is one of the other. -/
theorem prefix_of_length_sources_lt {front other ps : List Piece} (hfront : front <+: ps)
    (hother : other <+: ps) (hlt : (sources front).length < (sources other).length) :
    front <+: other :=
  (List.prefix_or_prefix_of_prefix hfront hother).resolve_right fun h =>
    absurd (length_sources_mono h) (Nat.not_le.mpr hlt)

/-- And so is the shorter one with the piece behind it. -/
theorem concat_prefix_of_length_sources_lt {front other ps : List Piece} {p : Piece}
    (hfront : front ++ [p] <+: ps) (hother : other <+: ps)
    (hlt : (sources front).length < (sources other).length) : front ++ [p] <+: other := by
  rcases List.prefix_or_prefix_of_prefix hfront hother with h | h
  · exact h
  · rcases List.prefix_concat_iff.mp h with rfl | h
    · exact List.prefix_rfl
    · exact absurd (length_sources_mono h) (Nat.not_le.mpr hlt)

/-- A row with an element in it, as it stands in front of the end tag of the element. -/
theorem row_endTag {row front rest : List Piece} {name : List Char} {inner : List Item}
    (hrow : row = front ++ ((Item.element name inner).pieces ++ rest)) :
    row = (front ++ .startTag name :: Item.piecesAll inner) ++ .endTag name :: rest := by
  rw [hrow, Item.pieces]
  simp only [List.cons_append, List.append_assoc, List.nil_append]

section

variable {items : List Item} (hcanon : Item.CanonicalAll items)

include hcanon

/-- Behind a beginning of the row of pieces as many tags lie in front as the beginning has. -/
theorem counts_render {front rest : List Piece} (hrow : Item.piecesAll items = front ++ rest) :
    opensBefore (Item.render items) (sources front).length = startTags front ∧
      closesBefore (Item.render items) (sources front).length = endTags front := by
  have hsound := Item.sound_of_canonicalAll hcanon
  rw [hrow] at hsound
  rw [opensBefore, closesBefore, Item.pieces_render hcanon, hrow, inFront_append hsound]
  exact ⟨rfl, rfl⟩

variable {name : List Char} {inner : List Item} {front rest : List Piece}
  (hrow : Item.piecesAll items = front ++ ((Item.element name inner).pieces ++ rest))

include hrow

/-- Between its two tags an element is open. -/
theorem lt_of_inside {k : Nat}
    (hstart : (sources (front ++ [.startTag name])).length ≤ k)
    (hstop : k < (sources (front ++ (Item.element name inner).pieces)).length) :
    startTags front + closesBefore (Item.render items) k
      < opensBefore (Item.render items) k + endTags front := by
  have hwhole : front ++ (Item.element name inner).pieces <+: Item.piecesAll items :=
    ⟨rest, by rw [hrow, List.append_assoc]⟩
  have htag : front ++ [.startTag name] <+: Item.piecesAll items :=
    List.IsPrefix.trans ⟨Item.piecesAll inner ++ [.endTag name], by simp [Item.pieces]⟩ hwhole
  rw [opensBefore, closesBefore, Item.pieces_render hcanon]
  -- what lies in front of `k` begins with the start tag and does not reach the end tag
  have hin := inFront_leads k (Item.piecesAll items)
  have hlen := length_sources_inFront_le k (Item.piecesAll items)
  obtain ⟨inside, hinside⟩ := (prefix_inFront_iff htag).mpr hstart
  have hpart := prefix_of_length_sources_lt hin hwhole (Nat.lt_of_le_of_lt hlen hstop)
  rw [← hinside] at hpart hlen ⊢
  have hinner : inside <+: Item.piecesAll inner := by
    rw [Item.pieces, List.append_assoc, List.prefix_append_right_inj, List.singleton_append,
      List.cons_prefix_cons, List.prefix_concat_iff] at hpart
    rcases hpart.2 with rfl | h
    · simp only [Item.pieces, sources_append, sources_cons, List.cons_append, List.append_assoc,
        List.length_append] at hlen hstop
      omega
    · exact h
  obtain ⟨more, hmore⟩ := hinner
  have := (balanced_piecesAll inner).open_le inside more hmore.symm
  simp only [List.append_assoc, List.singleton_append, startTags_append, startTags_cons_startTag,
    endTags_append, endTags_cons_startTag]
  omega

/-- An element is closed exactly from the end of its end tag on. -/
theorem closedBefore_iff {t : Token} (hstart : t.startOffset.toNat = (sources front).length)
    (hstop : t.endOffset.toNat = (sources (front ++ [.startTag name])).length) {o : Nat} :
    ClosedBefore (Item.render items) t o ↔
      (sources (front ++ (Item.element name inner).pieces)).length ≤ o := by
  obtain ⟨hopens, hcloses⟩ := counts_render hcanon hrow
  rw [ClosedBefore, hstart, hstop, hopens, hcloses]
  constructor
  · rintro ⟨k, hk, hko, hcount⟩
    by_contra ho
    have := lt_of_inside hcanon hrow hk (by omega)
    omega
  · intro ho
    rw [← List.append_assoc] at hrow
    obtain ⟨hopens, hcloses⟩ := counts_render hcanon hrow
    refine ⟨_, ?_, ho, ?_⟩
    · simp [Item.pieces]
    · have := (balanced_pieces (.element name inner)).settled
      rw [hopens, hcloses, startTags_append, endTags_append]
      omega

/-- An element that begins inside another one is closed where the end tag of that begins. -/
theorem closedBefore_of_inside {name' : List Char} {lead more : List Piece}
    (hlead : Item.piecesAll items = lead ++ .startTag name' :: more)
    (hafter : (sources front).length < (sources lead).length)
    (hbefore : (sources lead).length
      < (sources (front ++ .startTag name :: Item.piecesAll inner)).length)
    {t : Token} (hstart : t.startOffset.toNat = (sources lead).length)
    (hstop : t.endOffset.toNat = (sources (lead ++ [.startTag name'])).length) :
    ClosedBefore (Item.render items) t
      (sources (front ++ .startTag name :: Item.piecesAll inner)).length := by
  have hend := row_endTag hrow
  have hopening : front ++ [.startTag name] <+: Item.piecesAll items :=
    ⟨Item.piecesAll inner ++ .endTag name :: rest, by rw [hend]; simp⟩
  have hopening' : lead ++ [.startTag name'] <+: Item.piecesAll items :=
    ⟨more, by rw [hlead, List.append_assoc]; rfl⟩
  -- the start tag in question is one of the pieces inside
  have hfront : front ++ [.startTag name] <+: lead :=
    concat_prefix_of_length_sources_lt hopening ⟨_, hlead.symm⟩ hafter
  have hinside : lead ++ [.startTag name'] <+: front ++ .startTag name :: Item.piecesAll inner :=
    concat_prefix_of_length_sources_lt hopening' ⟨_, hend.symm⟩ hbefore
  obtain ⟨hopens, hcloses⟩ := counts_render hcanon hend
  obtain ⟨hopens', hcloses'⟩ := counts_render hcanon hlead
  refine ⟨_, ?_, Nat.le_refl _, ?_⟩
  · rw [hstop]
    exact length_sources_mono hinside
  · obtain ⟨x, rfl⟩ := hfront
    obtain ⟨y, hy⟩ := hinside
    have hinner : Item.piecesAll inner = x ++ (.startTag name' :: y) := by
      simpa using hy.symm
    have hopen := (balanced_piecesAll inner).open_le x _ hinner
    have hsettled := (balanced_piecesAll inner).settled
    rw [hstart, hopens, hcloses, hopens', hcloses']
    simp only [startTags_append, endTags_append, startTags_cons_startTag, endTags_cons_startTag,
      startTags_nil, endTags_nil]
    omega

end

section

variable {rules : PositionRules} {source : List Char}

theorem Belongs.exists_element {c : Cursor} {depth : Nat} {row front rest : List Piece}
    {visited : List (Node × UInt64)} {v : Node × UInt64} {i : Item}
    (h : Belongs rules source c depth row visited v i front rest) (hkind : v.1.kind = .startTag) :
    ∃ name inner, i = .element name inner ∧ v.1 = i.node rules source (c.past front) := by
  have hnode := h.node_eq
  cases i with
  | element name inner =>
    rcases hnode with hv | hv
    · exact ⟨name, inner, rfl, hv⟩
    · rw [← Option.some.inj hv] at hkind
      cases hkind
  | mustache body | text chars =>
    rcases hnode with hv | hv
    · rw [hv] at hkind
      cases hkind
    · cases hv

variable (rules source) in
/-- The offsets of a piece of a row in ASCII that begins a source. -/
theorem toNat_offsets_past {row front rest : List Piece} {p : Piece}
    (hascii : Dialect.isAscii (sources row) = true) (hlen : (sources row).length < UInt32.size)
    (hrow : row = front ++ p :: rest) (id : UInt64) :
    let t := ((Cursor.mk 0 id).past front).token rules source p
    t.startOffset.toNat = (sources front).length ∧
      t.endOffset.toNat = (sources (front ++ [p])).length := by
  rw [hrow, sources_append, sources_cons, isAscii_append, isAscii_append, Bool.and_eq_true,
    Bool.and_eq_true] at hascii
  rw [hrow, sources_append, sources_cons, List.length_append, List.length_append] at hlen
  have hpos : ((Cursor.mk 0 id).past front).pos = (sources front).length := by
    rw [Cursor.past_eq, Nat.zero_add]
  obtain ⟨hstart, hstop⟩ := toNat_offsets_token rules source ((Cursor.mk 0 id).past front)
    hascii.2.1 (by omega)
  rw [hpos] at hstart hstop
  refine ⟨hstart, ?_⟩
  rw [hstop, sources_append, sources_cons, sources_nil, List.append_nil, List.length_append]

variable {items : List Item} (hcanon : Item.CanonicalAll items)
  (hascii : Dialect.isAscii (Item.render items) = true)
  (hlen : (Item.render items).length < UInt32.size) {id : UInt64} {name : List Char}
  {inner : List Item} {front rest : List Piece}
  (hrow : Item.piecesAll items = front ++ ((Item.element name inner).pieces ++ rest))
  {stop : Node} (hpear : ((Item.element name inner).node rules source
    ((Cursor.mk 0 id).past front)).pear = some stop)

include hascii hlen hrow hpear in
/-- The offsets of the two tags of an element. -/
theorem toNat_offsets_element :
    let start := (Item.element name inner).node rules source ((Cursor.mk 0 id).past front)
    start.token.startOffset.toNat = (sources front).length ∧
      start.token.endOffset.toNat = (sources (front ++ [.startTag name])).length ∧
      stop.token.startOffset.toNat
        = (sources (front ++ .startTag name :: Item.piecesAll inner)).length ∧
      stop.token.endOffset.toNat
        = (sources (front ++ (Item.element name inner).pieces)).length := by
  have hend := row_endTag hrow
  obtain ⟨hstart, hbehind⟩ := toNat_offsets_past rules source hascii hlen hrow id
  obtain ⟨hstop, hlast⟩ := toNat_offsets_past rules source hascii hlen hend id
  rw [Cursor.past_append] at hstop hlast
  rw [List.append_assoc] at hlast
  rw [← Option.some.inj hpear]
  exact ⟨hstart, hbehind, hstop, hlast⟩

include hcanon hascii hlen hrow hpear in
/-- The end tag of an element closes it. -/
theorem closesLast_node :
    ClosesLast (Item.render items)
      (Node.preorderAll {} 0 (Item.nodes rules source ⟨0, id⟩ items))
      ((Item.element name inner).node rules source ((Cursor.mk 0 id).past front)) stop := by
  obtain ⟨hstart, hbehind, hstop, hlast⟩ := toNat_offsets_element hascii hlen hrow hpear
  have hclosed {o : Nat} := closedBefore_iff hcanon hrow hstart hbehind (o := o)
  refine ⟨hpear, ?_, ?_, ?_, ?_, fun v hv hkind hafter hbefore => ?_⟩
  · rw [← Option.some.inj hpear]
    rfl
  · rw [← Option.some.inj hpear]
    rfl
  · rw [UInt32.lt_iff_toNat_lt, hstart, hstop]
    simp [Piece.source]
  · rw [hclosed, hstop, Item.pieces]
    simp [Piece.source]
  · obtain ⟨i, lead, more, hi⟩ := exists_item_of_mem_preorderAll rules source items _ 0 v hv
    obtain ⟨name', inner', rfl, hnode⟩ := hi.exists_element hkind
    obtain ⟨hstart', hstop'⟩ := toNat_offsets_past rules source hascii hlen hi.row_eq id
    rw [hnode, UInt32.lt_iff_toNat_lt] at hafter hbefore
    rw [hnode, hstop]
    rw [hstart] at hafter
    rw [hstop] at hbefore
    refine closedBefore_of_inside hcanon hrow hi.row_eq ?_ ?_ hstart' hstop'
    · exact hstart' ▸ hafter
    · exact hstart' ▸ hbefore

section

variable {depth : UInt64} (hlevel : depth.toNat + endTags front = startTags front)
  (howner : ((Item.element name inner).node rules source ((Cursor.mk 0 id).past front), depth)
    ∈ Node.preorderAll {} 0 (Item.nodes rules source ⟨0, id⟩ items))

include hcanon hascii hlen hrow hpear hlevel howner

theorem nestedIn_start :
    NestedIn (Item.render items) (Node.preorderAll {} 0 (Item.nodes rules source ⟨0, id⟩ items))
      ((Item.element name inner).node rules source ((Cursor.mk 0 id).past front), depth) where
  kind := Or.inl rfl
  level _ := by
    obtain ⟨hopens, hcloses⟩ := counts_render hcanon hrow
    rw [(toNat_offsets_element hascii hlen hrow hpear).1, hopens, hcloses, hlevel]
  levelEnd h := nomatch h
  endTag h := nomatch h
  startTag _ := by
    obtain ⟨hstart, hbehind, -, hlast⟩ := toNat_offsets_element hascii hlen hrow hpear
    refine ⟨stop, ?_, closesLast_node hcanon hascii hlen hrow hpear, fun o => ?_⟩
    · exact pear_mem_preorderAll (fun _ => rfl) 0 _
        (fun w hw => (plain_of_mem_preorderAll_nodes rules source items _ 0 w hw).closed)
        _ howner rfl stop hpear
    · rw [closedBefore_iff hcanon hrow hstart hbehind, hlast]
  leaf h := absurd rfl h

theorem nestedIn_stop :
    NestedIn (Item.render items) (Node.preorderAll {} 0 (Item.nodes rules source ⟨0, id⟩ items))
      (stop, depth) := by
  have hclosesLast := closesLast_node hcanon hascii hlen hrow hpear
  have hkind : stop.kind = .endTag := hclosesLast.kind
  exact {
    kind := Or.inr (Or.inl hkind)
    level := fun h => absurd hkind h
    levelEnd := fun _ => by
      obtain ⟨hopens, hcloses⟩ := counts_render hcanon (row_endTag hrow)
      have hsettled := (balanced_piecesAll inner).settled
      rw [(toNat_offsets_element hascii hlen hrow hpear).2.2.1, hopens, hcloses]
      simp only [startTags_append, endTags_append, startTags_cons_startTag,
        endTags_cons_startTag]
      omega
    endTag := fun _ => ⟨_, howner, rfl, hclosesLast⟩
    startTag := fun h => nomatch hkind.symm.trans h
    leaf := fun _ => by
      rw [← Option.some.inj hpear]
      exact ⟨rfl, rfl⟩ }

end

theorem nestedIn_of_isLeaf {s : List Char} {visited : List (Node × UInt64)} {n : Node}
    {depth : UInt64} (hkind : n.kind = .text ∨ n.kind = .block)
    (hleaf : n.children = [] ∧ n.pear = none)
    (hlevel : depth.toNat + closesBefore s n.token.startOffset.toNat
      = opensBefore s n.token.startOffset.toNat) : NestedIn s visited (n, depth) where
  kind := Or.inr (Or.inr hkind)
  level _ := hlevel
  levelEnd h := by rcases hkind with hkind | hkind <;> exact nomatch hkind.symm.trans h
  endTag h := by rcases hkind with hkind | hkind <;> exact nomatch hkind.symm.trans h
  startTag h := by rcases hkind with hkind | hkind <;> exact nomatch hkind.symm.trans h
  leaf _ := hleaf

include hcanon hascii hlen in
/-- Every visited node of a placed forest stands in the nesting of the text of the forest. -/
theorem nestedIn_of_mem_preorderAll {v : Node × UInt64}
    (hv : v ∈ Node.preorderAll {} 0 (Item.nodes rules source ⟨0, id⟩ items)) :
    NestedIn (Item.render items) (Node.preorderAll {} 0 (Item.nodes rules source ⟨0, id⟩ items))
      v := by
  obtain ⟨i, front, rest, hplaced⟩ := exists_item_of_mem_preorderAll rules source items _ 0 v hv
  have hlevel := hplaced.toNat_level hlen
  obtain ⟨hrow, -, howner, hnode⟩ := hplaced
  obtain ⟨n, depth⟩ := v
  cases i with
  | element name inner =>
    obtain ⟨stop, hpear⟩ : ∃ stop, ((Item.element name inner).node rules source
      ((Cursor.mk 0 id).past front)).pear = some stop := ⟨_, rfl⟩
    rcases hnode with rfl | hnode
    · exact nestedIn_start hcanon hascii hlen hrow hpear hlevel howner
    · obtain rfl : stop = n := Option.some.inj (hpear.symm.trans hnode)
      exact nestedIn_stop hcanon hascii hlen hrow hpear hlevel howner
  | mustache body | text chars =>
    rcases hnode with rfl | hnode
    · obtain ⟨hstart, -⟩ := toNat_offsets_past rules source hascii hlen hrow id
      obtain ⟨hopens, hcloses⟩ := counts_render hcanon hrow
      refine nestedIn_of_isLeaf (by simp [Item.node, Node.parent, Node.leaf]) ⟨rfl, rfl⟩ ?_
      rw [← hopens, ← hcloses, ← hstart] at hlevel
      exact hlevel
    · cases hnode

end

/-! ## The tree of a source -/

/-- In the tree of a source every node is as deep as the tags in front of it say, end tags one level
higher than that. Each end tag is the pear of the start tag that was opened last and is not closed in
front of it, which has its name, and each start tag has such a pear. No other node has children or a
pear. -/
theorem parse_nesting {d : Dialect} {source : List Char}
    (hlen : Text.unitCount source < UInt32.size - 1) {counter : Counter} {doc : Document}
    (h : (d.parse source counter).1 = .ok doc) :
    ∀ v ∈ visits {} doc.nodes, NestedIn source (visits {} doc.nodes) v := by
  have hfits : Text.unitCount source < UInt32.size := by omega
  obtain ⟨hascii, items, hcanon, rfl, rfl⟩ := (Dialect.parse_eq_ok_iff hfits).mp h
  rw [Text.unitCount_of_isAscii hascii] at hfits
  rw [visits_eq_preorderAll]
  exact fun v hv => nestedIn_of_mem_preorderAll hcanon hascii hfits hv

/-- The end tag of the inner one of two elements, behind two start tags. -/
theorem parse_nesting_inner :
    let source := ['<', 'a', '>', '<', 'b', '>', 'x', '<', '/', 'b', '>', '<', '/', 'a', '>']
    let items : List Item := [.element ['a'] [.element ['b'] [.text ['x']]]]
    let doc : Document := ⟨Item.nodes .baseline source ⟨0, 1⟩ items, true⟩
    let stop := Node.parent .endTag
      (Cursor.token .baseline source ⟨7, 4⟩ (.endTag ['b'])) ['b'] []
    Text.unitCount source < UInt32.size - 1 ∧ (Dialect.markup.parse source {}).1 = .ok doc ∧
      (stop, 1) ∈ visits {} doc.nodes ∧ opensBefore source 7 = 2 ∧ closesBefore source 7 = 0 ∧
        NestedIn source (visits {} doc.nodes) (stop, 1) := by
  intro source items doc stop
  have hlen : Text.unitCount source < UInt32.size - 1 := by decide
  have hcanon : Item.CanonicalAll items := by decide
  have hread : (Dialect.markup.parse source {}).1 = .ok doc :=
    (Dialect.parse_eq_ok_iff (by decide)).mpr ⟨by decide, items, hcanon, rfl, rfl⟩
  have hvisit : (stop, 1) ∈ visits {} doc.nodes := by
    rw [visits_eq_preorderAll]
    exact List.mem_of_getElem? (rfl : (Node.preorderAll {} 0 doc.nodes)[3]? = some (stop, 1))
  have hpieces : pieces source = (Item.piecesAll items, []) := Item.pieces_render hcanon
  refine ⟨hlen, hread, hvisit, ?_, ?_, parse_nesting hlen hread _ hvisit⟩
  · rw [opensBefore, hpieces]
    rfl
  · rw [closesBefore, hpieces]
    rfl

end Tags

end MarkupTree
