import MarkupTree.Proofs.Tags.Append

/-!
# The first flaw of a text

A text is taken in piece by piece, and what is wrong with it shows at the first piece that does not
fit, at a piece that does not end, or at the end of the text. So everything in front of a flaw is
read, but for elements that are still open there. A piece that does not fit stays wrong whatever
stands behind it. An element that is open at the end is closed by its end tag, and then the element
around it is the innermost one.

* `Mistake.message_injective` — a message tells which mistake it is about
* `Flawed` — how a text comes to its first flaw
* `verdict_misplaced` — an end tag out of place is the flaw of all texts that begin so
* `Draft.Holds.close` — an end tag closes the innermost open element
* `Dialect.parse_flaw` — where errors are, which of them stay, and how open elements are closed
-/

namespace MarkupTree

namespace Tags

/-! ## Messages -/

/-- The characters of a message: the kind of mistake, and then the name that it is about. -/
theorem Mistake.toList_message (m : Mistake) : m.message.toList = match m with
  | unterminated .mustache => "unterminated mustache".toList
  | unterminated .tag => "unterminated tag".toList
  | stray name => "stray </".toList ++ (name ++ ['>'])
  | expected name => "expected </".toList ++ (name ++ ['>'])
  | unclosed name => "unclosed <".toList ++ (name ++ ['>']) := by
  cases m with
  | unterminated u => cases u <;> rfl
  | stray name => simp [message, toString]
  | expected name => simp [message, toString]
  | unclosed name => simp [message, toString]

theorem Mistake.message_injective : Function.Injective Mistake.message := by
  intro m m' h
  have hchars := congrArg String.toList h
  rw [toList_message, toList_message] at hchars
  -- the kinds differ within the first characters, and what follows is the name
  revert hchars
  rcases m with ⟨_ | _⟩ | name | name | name <;>
    rcases m' with ⟨_ | _⟩ | name' | name' | name' <;> simp

/-! ## Rows of pieces -/

/-- A row of pieces is delimited in front of nothing if it is delimited in front of anything. -/
theorem Delimited.alone : ∀ {ps : List Piece} {rest : List Char}, Delimited ps rest →
    Delimited ps []
  | [], _, _ => trivial
  | [p], _, ⟨hsound, _, _⟩ => ⟨hsound, endsAt_nil p, trivial⟩
  | p :: q :: ps, rest, ⟨hsound, hends, hdelim⟩ => by
    have hq : Delimited (q :: ps) [] := hdelim.alone
    rw [sources_cons, List.append_assoc, endsAt_source_iff hdelim.1 hdelim.2.1] at hends
    refine ⟨hsound, ?_, hq⟩
    rw [sources_cons, List.append_assoc, endsAt_source_iff hq.1 hq.2.1]
    exact hends

theorem Delimited.left {ps qs : List Piece} {rest : List Char} (h : Delimited (ps ++ qs) rest) :
    Delimited ps [] := by
  obtain ⟨hsound, hchain⟩ := delimited_nil_iff.mp h.alone
  rw [List.isChain_append] at hchain
  exact delimited_nil_iff.mpr ⟨fun p hp => hsound p (List.mem_append_left _ hp), hchain.1⟩

/-- Anything may stand in front of an end tag. -/
theorem Delimited.append_endTag {ps : List Piece} (h : Delimited ps []) {name : List Char}
    (hname : '>' ∉ name) : Delimited (ps ++ [.endTag name]) [] := by
  obtain ⟨hsound, hchain⟩ := delimited_nil_iff.mp h
  refine delimited_nil_iff.mpr ⟨?_, ?_⟩
  · intro p hp
    rcases List.mem_append.mp hp with hp | hp
    · exact hsound p hp
    · rw [List.mem_singleton.mp hp]
      exact hname
  · refine List.isChain_append.mpr ⟨hchain, List.isChain_singleton _, fun p _ q hq => ?_⟩
    rw [← Option.some.inj hq]
    exact Item.precedes_endTag p name

/-! ## Drafts of texts -/

/-- There is nothing wrong, or just an element left open that begins in front of `limit`. -/
def OpenBefore (limit : Nat) (verdict : Except Flaw (List Item)) : Prop :=
  (∃ items, verdict = .ok items) ∨
    ∃ name pos, pos < limit ∧ verdict = .error ⟨.unclosed name, pos⟩

namespace Draft

/-- A draft is what a text comes to: the text is made up of pieces, and these are taken in one by
one. -/
structure Holds (d : Draft) (s : List Char) : Prop where
  pieces_eq : Tags.pieces s = (d.pieces, [])
  read_eq : Draft.read {} d.pieces = .ok d

variable {d : Draft} {s name : List Char} {mistake : Mistake}

theorem holds_sources {ps : List Piece} (hdelim : Delimited ps []) (hread : read {} ps = .ok d) :
    d.Holds (sources ps) := by
  have hpieces : d.pieces = ps := read_pieces hread
  refine ⟨pieces_eq_iff.mpr ⟨?_, ?_, fun h => absurd rfl h⟩, ?_⟩
  · rw [hpieces, List.append_nil]
  · rw [hpieces]
    exact hdelim
  · rw [hpieces]
    exact hread

theorem Holds.sources_eq (h : d.Holds s) : sources d.pieces = s := by
  rw [(pieces_eq_iff.mp h.pieces_eq).1, List.append_nil]

theorem Holds.delimited (h : d.Holds s) : Delimited d.pieces [] :=
  (pieces_eq_iff.mp h.pieces_eq).2.1

theorem Holds.length_eq (h : d.Holds s) : d.length = s.length := by
  rw [length, h.sources_eq]

/-- What a text is read as lies in its draft. -/
theorem Holds.verdict_eq (h : d.Holds s) : verdict s = d.finish := by
  rw [verdict, h.pieces_eq, h.read_eq]
  rfl

/-- A draft is finished but for open elements, the innermost of which begins inside its text. -/
theorem openBefore_finish (d : Draft) : OpenBefore d.length d.finish := by
  obtain ⟨opened, roots⟩ := d
  cases opened with
  | nil => exact Or.inl ⟨_, rfl⟩
  | cons o os => exact Or.inr ⟨o.name, _, pos_lt_of_finish rfl, rfl⟩

/-- One item more changes nothing about the open elements. -/
theorem finish_add (d : Draft) (i : Item) :
    (d.add i).finish = d.finish.map (· ++ [i]) := by
  obtain ⟨opened, roots⟩ := d
  cases opened with
  | nil =>
    rw [add, finish, finish]
    simp [Except.map]
  | cons o os => rfl

theorem openBefore_finish_add (d : Draft) (i : Item) :
    OpenBefore d.length (d.add i).finish := by
  rw [finish_add]
  rcases d.openBefore_finish with ⟨items, h⟩ | ⟨name, pos, hpos, h⟩
  · exact Or.inl ⟨items ++ [i], by rw [h]; rfl⟩
  · exact Or.inr ⟨name, pos, hpos, by rw [h]; rfl⟩

theorem map_name_opened_add (d : Draft) (i : Item) :
    (d.add i).opened.map OpenItem.name = d.opened.map OpenItem.name := by
  obtain ⟨opened, roots⟩ := d
  cases opened with
  | nil => rfl
  | cons o os => rfl

theorem close_eq_error (h : d.close name = .error mistake) :
    mistake = .stray name ∨ ∃ o os, d.opened = o :: os ∧ mistake = .expected o.name := by
  rw [close] at h
  split at h
  · exact Or.inl (Except.error.inj h).symm
  · next o os ho =>
    split at h
    · cases h
    · exact Or.inr ⟨o, os, ho, (Except.error.inj h).symm⟩

/-! ## End tags -/

theorem startTag_mem_pieces (o : OpenItem) (os : List OpenItem) (roots : List Item) :
    Piece.startTag o.name ∈ pieces ⟨o :: os, roots⟩ := by
  simp [pieces, openedPieces]

/-- The end tag of the innermost open element closes it. -/
theorem Holds.close {o : OpenItem} {os : List OpenItem} {roots : List Item}
    (h : Holds ⟨o :: os, roots⟩ s) :
    Holds (add ⟨os, roots⟩ (.element o.name o.items.reverse))
      (s ++ (Piece.endTag o.name).source) := by
  have hname : '>' ∉ o.name := (h.delimited.sound _ (startTag_mem_pieces o os roots)).1
  have hsource : s ++ (Piece.endTag o.name).source
      = sources (pieces ⟨o :: os, roots⟩ ++ [.endTag o.name]) := by
    rw [sources_append, h.sources_eq, sources_cons, sources_nil, List.append_nil]
  rw [hsource]
  refine holds_sources (h.delimited.append_endTag hname) ?_
  rw [read_append, h.read_eq]
  show read _ [Piece.endTag o.name] = _
  rw [read, accept, Draft.close]
  dsimp only
  rw [if_pos rfl]
  rfl

theorem Holds.isAscii_endTag {o : OpenItem} {os : List OpenItem} {roots : List Item}
    (h : Holds ⟨o :: os, roots⟩ s) (hascii : Dialect.isAscii s = true) :
    Dialect.isAscii (Piece.endTag o.name).source = true := by
  rw [← h.sources_eq] at hascii
  have hname : Dialect.isAscii o.name = true :=
    ascii_of_isAscii_sources hascii _ (startTag_mem_pieces o os roots)
  simpa [Piece.source, Dialect.isAscii] using hname

end Draft

/-- An end tag that does not close the innermost open element is the flaw of every text that begins
up to its end in the same way. -/
theorem verdict_misplaced {d : Draft} {s name : List Char} {mistake : Mistake} (h : d.Holds s)
    (hname : '>' ∉ name) (hfails : d.close name = .error mistake) (rest : List Char) :
    verdict (s ++ ((Piece.endTag name).source ++ rest)) = .error ⟨mistake, s.length⟩ := by
  have hlast : ∀ p ∈ (d.pieces ++ [Piece.endTag name]).getLast?, ∀ rest, p.EndsAt rest := by
    intro p hp rest
    rw [List.getLast?_concat] at hp
    rw [← Option.some.inj hp]
    trivial
  have hsource : s ++ ((Piece.endTag name).source ++ rest)
      = sources (d.pieces ++ [.endTag name]) ++ rest := by
    simp [h.sources_eq]
  rw [verdict, hsource, pieces_append (h.delimited.append_endTag hname) hlast, List.append_assoc,
    Draft.read_append, h.read_eq]
  have hread (ps : List Piece) : d.read ([.endTag name] ++ ps) = .error (mistake, d) := by
    rw [List.singleton_append, Draft.read, Draft.accept, hfails]
  rw [Except.bind, hread, ← h.length_eq]

/-! ## How a text comes to its flaw -/

/-- How a text comes to its first flaw. -/
inductive Flawed : List Char → Flaw → Prop
  /-- An end tag does not close the innermost open element. -/
  | misplaced {d : Draft} {s name rest : List Char} {mistake : Mistake} (before : d.Holds s)
      (sound : '>' ∉ name) (fails : d.close name = .error mistake) :
      Flawed (s ++ ((Piece.endTag name).source ++ rest)) ⟨mistake, s.length⟩
  /-- A piece does not end. -/
  | unterminated {d : Draft} {s rest : List Char} {piece : Unterminated} (before : d.Holds s)
      (stuck : next rest = .error piece) : Flawed (s ++ rest) ⟨.unterminated piece, s.length⟩
  /-- An element is open at the end. -/
  | unclosed {o : OpenItem} {os : List OpenItem} {roots : List Item} {s : List Char}
      (all : Draft.Holds ⟨o :: os, roots⟩ s) :
      Flawed s ⟨.unclosed o.name, Draft.length ⟨os, roots⟩⟩

theorem flawed_of_verdict {s : List Char} {flaw : Flaw} (h : verdict s = .error flaw) :
    Flawed s flaw := by
  obtain ⟨hsource, hdelim, -⟩ := pieces_spec s
  unfold verdict at h
  split at h
  · next mistake d hread =>
    obtain ⟨taken, p, later, hps, htaken, hfails⟩ := Draft.exists_of_read_eq_error hread
    rw [hps] at hdelim hsource
    have hbefore := Draft.holds_sources hdelim.left htaken
    rw [← Except.error.inj h, hbefore.length_eq, ← hsource, sources_append, sources_cons,
      List.append_assoc, List.append_assoc]
    cases p with
    | endTag name =>
      have hname : '>' ∉ name := hdelim.sound (.endTag name) (by simp)
      exact .misplaced hbefore hname hfails
    | startTag _ | mustache _ | text _ => cases hfails
  · next d hread =>
    have hbefore := Draft.holds_sources hdelim.alone hread
    split at h
    · next u hu =>
      rw [← Except.error.inj h, hbefore.length_eq]
      nth_rewrite 1 [← hsource]
      exact .unterminated hbefore (unterminated?_eq_some_iff.mp hu).2
    · next hnone =>
      rw [unterminated?_pieces_eq_none_iff.mp hnone, List.append_nil] at hsource
      rw [hsource] at hbefore
      obtain ⟨opened, roots⟩ := d
      cases opened with
      | nil => cases h
      | cons o os =>
        rw [← Except.error.inj h]
        exact .unclosed hbefore

/-- What stands in front of a flaw that is not an element left open is taken in to its end. -/
theorem Flawed.exists_holds_before {s : List Char} {flaw : Flaw} (h : Flawed s flaw)
    (hmistake : ∀ name, flaw.mistake ≠ .unclosed name) :
    ∃ (d : Draft) (before rest : List Char), s = before ++ rest ∧ before.length = flaw.pos ∧
      d.Holds before := by
  cases h with
  | misplaced hbefore _ _ => exact ⟨_, _, _, rfl, rfl, hbefore⟩
  | unterminated hbefore _ => exact ⟨_, _, _, rfl, rfl, hbefore⟩
  | unclosed _ => exact absurd rfl (hmistake _)

/-- A flaw that is an end tag out of place stays the flaw whatever is added to the text. -/
theorem Flawed.verdict_append {s : List Char} {flaw : Flaw} (h : Flawed s flaw)
    {name : List Char} (hmistake : flaw.mistake = .stray name ∨ flaw.mistake = .expected name)
    (w : List Char) : verdict (s ++ w) = .error flaw := by
  cases h with
  | misplaced hbefore hname hfails =>
    rw [List.append_assoc, List.append_assoc]
    exact verdict_misplaced hbefore hname hfails _
  | unterminated _ _ => simp at hmistake
  | unclosed _ => simp at hmistake

/-- Where an element is left open, the text is taken in to its end. -/
theorem Flawed.exists_holds {s name : List Char} {pos : Nat} (h : Flawed s ⟨.unclosed name, pos⟩) :
    ∃ (o : OpenItem) (os : List OpenItem) (roots : List Item),
      Draft.Holds ⟨o :: os, roots⟩ s ∧ o.name = name ∧ Draft.length ⟨os, roots⟩ = pos := by
  cases h with
  | misplaced _ _ hfails =>
    rcases Draft.close_eq_error hfails with hstray | ⟨o, os, -, hexpected⟩
    · cases hstray
    · cases hexpected
  | unclosed hall => exact ⟨_, _, _, hall, rfl, rfl⟩

/-- The start tag of an element at an offset of a text is the last that nothing closes: behind it
stands a whole forest. -/
def OpensLast (s name : List Char) (pos : Nat) : Prop :=
  ∃ before items, pieces s = (before ++ .startTag name :: Item.piecesAll items, []) ∧
    (sources before).length = pos

theorem Draft.Holds.opensLast {o : OpenItem} {os : List OpenItem} {roots : List Item}
    {s : List Char} (h : Holds ⟨o :: os, roots⟩ s) :
    OpensLast s o.name (length ⟨os, roots⟩) := by
  refine ⟨Draft.pieces ⟨os, roots⟩, o.items.reverse, ?_, rfl⟩
  rw [h.pieces_eq, Draft.pieces, Draft.pieces, openedPieces, List.append_assoc]

end Tags

namespace Dialect

open Tags

variable {d : Dialect} {s : List Char}

/-! ## The parser -/

/-- A source is read, or an element is left open in it that begins in front of `limit`. -/
def ReadOrOpen (d : Dialect) (limit : Nat) (s : List Char) (c : Counter) : Prop :=
  (∃ doc, (d.parse s c).1 = .ok doc) ∨
    ∃ name k, k.toNat < limit ∧
      (d.parse s c).1 = .error (.error (.invalidSource (Mistake.unclosed name).message (some k)))

/-- A source is read once the end tags of some names stand behind it. The parser asks for them one
by one, each time for the next, as long as the source does not get too long. -/
def ClosedBy (d : Dialect) : List Char → List (List Char) → Prop
  | s, [] => ∀ c, ∃ doc, (d.parse s c).1 = .ok doc
  | s, name :: names =>
    (∀ c, ∃ k, (d.parse s c).1
      = .error (.error (.invalidSource (Mistake.unclosed name).message (some k)))) ∧
    (Text.unitCount (s ++ (Piece.endTag name).source) < UInt32.size - 1 →
      d.ClosedBy (s ++ (Piece.endTag name).source) names)

theorem exists_parse_eq_ok (hascii : isAscii s = true) (hlen : Text.unitCount s < UInt32.size)
    {items : List Item} (h : verdict s = .ok items) (c : Counter) :
    ∃ doc, (d.parse s c).1 = .ok doc := by
  rw [parse_eq_verdict hlen, if_pos hascii, h]
  exact ⟨_, rfl⟩

/-- The parser says of an element left open what the verdict says. -/
theorem exists_parse_eq_unclosed (hascii : isAscii s = true)
    (hlen : Text.unitCount s < UInt32.size) {name : List Char} {pos : Nat}
    (h : verdict s = .error ⟨.unclosed name, pos⟩) (c : Counter) :
    ∃ k, k.toNat = pos ∧ (d.parse s c).1
      = .error (.error (.invalidSource (Mistake.unclosed name).message (some k))) := by
  have hpos : pos < UInt32.size := by
    have := pos_lt_of_verdict h
    rw [Text.unitCount_of_isAscii hascii] at hlen
    exact this.trans hlen
  have htoNat : (UInt32.ofNat pos).toNat = pos := UInt32.toNat_ofNat_of_lt' hpos
  exact ⟨UInt32.ofNat pos, htoNat,
    (parse_eq_invalidSource_iff hlen).mpr ⟨hascii, _, h, rfl, htoNat⟩⟩

theorem readOrOpen_of_openBefore (hascii : isAscii s = true)
    (hlen : Text.unitCount s < UInt32.size) {limit : Nat} (h : OpenBefore limit (verdict s))
    (c : Counter) : d.ReadOrOpen limit s c := by
  rcases h with ⟨items, hitems⟩ | ⟨name, pos, hpos, hopen⟩
  · exact Or.inl (exists_parse_eq_ok hascii hlen hitems c)
  · obtain ⟨k, hk, hparse⟩ := exists_parse_eq_unclosed hascii hlen hopen c
    exact Or.inr ⟨name, k, hk ▸ hpos, hparse⟩

/-- The elements that a draft leaves open are closed from the innermost on. -/
theorem closedBy_of_holds : ∀ (names : List (List Char)) {draft : Draft} {s : List Char},
    draft.Holds s → draft.opened.map OpenItem.name = names → isAscii s = true →
      Text.unitCount s < UInt32.size - 1 → d.ClosedBy s names
  | [], ⟨opened, roots⟩, s, hholds, hnames, hascii, hlen => by
    obtain rfl : opened = [] := List.map_eq_nil_iff.mp hnames
    exact exists_parse_eq_ok hascii (by omega) hholds.verdict_eq
  | name :: names, ⟨opened, roots⟩, s, hholds, hnames, hascii, hlen => by
    obtain ⟨o, os, rfl, rfl, hrest⟩ := List.map_eq_cons_iff.mp hnames
    refine ⟨fun c => ?_, fun hclosed => ?_⟩
    · obtain ⟨k, -, hparse⟩ := exists_parse_eq_unclosed hascii (by omega) hholds.verdict_eq c
      exact ⟨k, hparse⟩
    · -- behind the end tag the other elements are open as before
      refine closedBy_of_holds names hholds.close ?_ ?_ hclosed
      · rw [Draft.map_name_opened_add]
        exact hrest
      · rw [isAscii_append, hascii, hholds.isAscii_endTag hascii]
        rfl

/-- Where a parser finds a source invalid, and what follows from it. The message is that of one
mistake. Unless this is an element left open, the source in front of the offset is read or just
leaves an element open. An end tag out of place is reported in the same way whatever stands behind
the source. An element left open is the last whose start tag nothing closes. Its end tag closes it,
so what is then reported, if anything, is an open element further in front, and by closing these the
source gets read. -/
theorem parse_flaw (hlen : Text.unitCount s < UInt32.size - 1) {c : Counter} {detail : String}
    {k : UInt32} (h : (d.parse s c).1 = .error (.error (.invalidSource detail (some k)))) :
    k.toNat < s.length ∧ (∃ mistake : Mistake, detail = mistake.message) ∧
      ∀ mistake : Mistake, detail = mistake.message →
        ((∀ name, mistake ≠ .unclosed name) →
          ∀ c', d.ReadOrOpen k.toNat (s.take k.toNat) c') ∧
        (∀ name, mistake = .stray name ∨ mistake = .expected name →
          ∀ w, isAscii w = true → Text.unitCount (s ++ w) < UInt32.size - 1 →
            ∀ c', (d.parse (s ++ w) c').1 = .error (.error (.invalidSource detail (some k)))) ∧
        ∀ name, mistake = .unclosed name →
          OpensLast s name k.toNat ∧
          (Text.unitCount (s ++ (Piece.endTag name).source) < UInt32.size - 1 →
            ∀ c', d.ReadOrOpen k.toNat (s ++ (Piece.endTag name).source) c') ∧
          ∃ names, d.ClosedBy s (name :: names) := by
  obtain ⟨hascii, flaw, hverdict, rfl, hk⟩ := (parse_eq_invalidSource_iff (by omega)).mp h
  have hflawed := flawed_of_verdict hverdict
  have hpos := pos_lt_of_verdict hverdict
  rw [hk]
  refine ⟨hpos, ⟨_, rfl⟩, fun mistake hmessage => ?_⟩
  obtain rfl : flaw.mistake = mistake := Mistake.message_injective hmessage
  refine ⟨fun hnot c' => ?_, fun name hmistake w hw hlong c' => ?_, fun name hname => ?_⟩
  · obtain ⟨draft, before, rest, rfl, hbefore, hholds⟩ := hflawed.exists_holds_before hnot
    rw [isAscii_append, Bool.and_eq_true] at hascii
    rw [Text.unitCount_append] at hlen
    rw [List.take_left' hbefore, ← hbefore]
    refine readOrOpen_of_openBefore hascii.1 (by omega) ?_ c'
    rw [hholds.verdict_eq, ← hholds.length_eq]
    exact draft.openBefore_finish
  · refine (parse_eq_invalidSource_iff (by omega)).mpr ⟨?_, flaw, ?_, rfl, hk⟩
    · rw [isAscii_append, hascii, hw]
      rfl
    · exact hflawed.verdict_append hmistake w
  · obtain ⟨mistake, pos⟩ := flaw
    subst hname
    obtain ⟨o, os, roots, hholds, rfl, rfl⟩ := hflawed.exists_holds
    refine ⟨hholds.opensLast, fun hlong => ?_, ?_⟩
    · refine readOrOpen_of_openBefore ?_ (by omega) ?_
      · rw [isAscii_append, hascii, hholds.isAscii_endTag hascii]
        rfl
      · rw [hholds.close.verdict_eq]
        exact Draft.openBefore_finish_add _ _
    · exact ⟨os.map OpenItem.name, closedBy_of_holds _ hholds rfl hascii hlen⟩

/-- The end tag of another element is out of place with any text behind it, and two elements that
are left open are closed one after the other. -/
theorem parse_flaw_nested :
    let s := ['<', 'a', '>', 'x', '<', '/', 'b', '>']
    let t := ['<', 'a', '>', '<', 'b', '>']
    let closed := ['<', 'a', '>', '<', 'b', '>', '<', '/', 'b', '>']
    Text.unitCount s < UInt32.size - 1 ∧ Text.unitCount t < UInt32.size - 1 ∧
      (markup.parse s {}).1 = .error (.error (.invalidSource "expected </a>" (some 4))) ∧
      (markup.parse t {}).1 = .error (.error (.invalidSource "unclosed <b>" (some 3))) ∧
      markup.ReadOrOpen 4 ['<', 'a', '>', 'x'] {} ∧
      (markup.parse (s ++ ['<']) {}).1
        = .error (.error (.invalidSource "expected </a>" (some 4))) ∧
      OpensLast t ['b'] 3 ∧ markup.ReadOrOpen 3 closed {} ∧
      ∃ names, markup.ClosedBy t (['b'] :: names) := by
  intro s t closed
  have hs : Text.unitCount s < UInt32.size - 1 := by decide
  have ht : Text.unitCount t < UInt32.size - 1 := by decide
  have hexpected : (markup.parse s {}).1
      = .error (.error (.invalidSource "expected </a>" (some 4))) := by
    have hstart : next s = .ok (.startTag ['a'], ['x', '<', '/', 'b', '>']) := rfl
    have htext : next ['x', '<', '/', 'b', '>'] = .ok (.text ['x'], ['<', '/', 'b', '>']) := rfl
    have hstop : next ['<', '/', 'b', '>'] = .ok (.endTag ['b'], []) := rfl
    have hverdict : verdict s = .error ⟨.expected ['a'], 4⟩ := by
      rw [verdict, pieces_of_next (List.cons_ne_nil _ _) hstart,
        pieces_of_next (List.cons_ne_nil _ _) htext, pieces_of_next (List.cons_ne_nil _ _) hstop,
        pieces_nil]
      rfl
    exact (parse_eq_invalidSource_iff (by decide)).mpr ⟨by decide, _, hverdict, rfl, rfl⟩
  have hunclosed : (markup.parse t {}).1
      = .error (.error (.invalidSource "unclosed <b>" (some 3))) := by
    have hstart : next t = .ok (.startTag ['a'], ['<', 'b', '>']) := rfl
    have hinner : next ['<', 'b', '>'] = .ok (.startTag ['b'], []) := rfl
    have hverdict : verdict t = .error ⟨.unclosed ['b'], 3⟩ := by
      rw [verdict, pieces_of_next (List.cons_ne_nil _ _) hstart,
        pieces_of_next (List.cons_ne_nil _ _) hinner, pieces_nil]
      rfl
    exact (parse_eq_invalidSource_iff (by decide)).mpr ⟨by decide, _, hverdict, rfl, rfl⟩
  obtain ⟨-, -, hflaw⟩ := parse_flaw hs hexpected
  obtain ⟨hbefore, hbehind, -⟩ := hflaw (.expected ['a']) rfl
  obtain ⟨-, -, hflaw⟩ := parse_flaw ht hunclosed
  obtain ⟨hlast, hclose, hclosed⟩ := (hflaw (.unclosed ['b']) rfl).2.2 ['b'] rfl
  exact ⟨hs, ht, hexpected, hunclosed, hbefore (by simp) {},
    hbehind ['a'] (Or.inr rfl) ['<'] (by decide) (by decide) {}, hlast, hclose (by decide) {},
    hclosed⟩

end Dialect

end MarkupTree
