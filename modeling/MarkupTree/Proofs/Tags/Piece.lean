import MarkupTree.Tags.Piece
import Mathlib.Data.List.Chain
import Mathlib.Data.List.Infix

/-!
# Which pieces a text has

The pieces of a text are found one after the other, each by a search for its first end. Read the
other way round, a row of pieces written behind each other is read back as that row when no piece
ends early (`Piece.Sound`) and none runs on into the next (`Piece.EndsAt`). Both hold of whatever
is read, so a text determines its pieces and the pieces determine the text.

* `cutAt?_eq_some_iff`, `spanText_eq_iff` — what the two searches find
* `next_eq_ok_iff` — which piece is read first
* `pieces_eq_iff` — which texts are read to their end, and as which pieces
-/

namespace MarkupTree.Tags

/-! ## The searches -/

theorem not_infix_dropLast {mark : List Char} (hm : mark ≠ []) : ¬mark <:+: mark.dropLast := by
  intro h
  have hle := h.length_le
  have hpos := List.length_pos_iff.mpr hm
  rw [List.length_dropLast] at hle
  omega

/-- Whether a mark begins at a character does not depend on what the last mark ends with, when that
one is at least a character behind. -/
theorem prefix_dropLast_iff {mark a : List Char} {c : Char} (b : List Char) :
    mark <+: (c :: a) ++ mark.dropLast ↔ mark <+: (c :: a) ++ mark ++ b := by
  have hshort : (c :: a) ++ mark.dropLast <+: (c :: a) ++ mark ++ b := by
    rw [List.append_assoc]
    refine (List.prefix_append_right_inj (c :: a)).mpr ?_
    exact (List.dropLast_prefix mark).trans (List.prefix_append mark b)
  have hlen : mark.length ≤ ((c :: a) ++ mark.dropLast).length := by
    rw [List.length_append, List.length_cons, List.length_dropLast]
    omega
  exact ⟨fun h => h.trans hshort, fun h => List.prefix_of_prefix_length_le h hshort hlen⟩

/-- One more character in front of the first mark is one at which no mark begins. -/
theorem not_infix_cons_iff {mark a : List Char} {c : Char} (b : List Char) :
    ¬mark <:+: (c :: a) ++ mark.dropLast ↔
      ¬mark <+: (c :: a) ++ mark ++ b ∧ ¬mark <:+: a ++ mark.dropLast := by
  rw [← prefix_dropLast_iff b, List.cons_append, List.infix_cons_iff, not_or]

/-- A cut is made at the first mark: the text in front of it and the mark hold no other. -/
theorem cutAt?_eq_some_iff {mark : List Char} (hm : mark ≠ []) : ∀ {s a b : List Char},
    cutAt? mark s = some (a, b) ↔ s = a ++ mark ++ b ∧ ¬mark <:+: a ++ mark.dropLast
  | [], a, b => by simp [cutAt?, hm]
  | c :: s, [], b => by
    rw [List.nil_append, List.nil_append, and_iff_left (not_infix_dropLast hm), cutAt?]
    split
    · next hp =>
      obtain ⟨t, ht⟩ := List.isPrefixOf_iff_prefix.mp hp
      rw [← ht, List.drop_left]
      simp
    · next hp =>
      refine iff_of_false (by simp) fun he => hp ?_
      exact List.isPrefixOf_iff_prefix.mpr ⟨b, he.symm⟩
  | c :: s, d :: a, b => by
    rw [not_infix_cons_iff b, cutAt?]
    split
    · next hp =>
      refine iff_of_false (by simp) ?_
      rintro ⟨he, hno, -⟩
      exact hno (he ▸ List.isPrefixOf_iff_prefix.mp hp)
    · next hp =>
      rw [List.isPrefixOf_iff_prefix] at hp
      rw [Option.map_eq_some_iff]
      constructor
      · rintro ⟨⟨a', b'⟩, hcut, he⟩
        simp only [Prod.mk.injEq, List.cons.injEq] at he
        obtain ⟨⟨rfl, rfl⟩, rfl⟩ := he
        obtain ⟨rfl, hno⟩ := (cutAt?_eq_some_iff hm).mp hcut
        exact ⟨rfl, hp, hno⟩
      · rintro ⟨he, -, hno⟩
        obtain ⟨rfl, rfl⟩ := List.cons.inj he
        exact ⟨(a, b), (cutAt?_eq_some_iff hm).mpr ⟨rfl, hno⟩, rfl⟩

theorem opensMarkup_cons {c : Char} {s : List Char} :
    opensMarkup (c :: s) = true ↔ c = '<' ∨ c = '{' ∧ s.head? = some '{' := by
  unfold opensMarkup
  split
  · next h => simp [(List.cons.inj h).1]
  · next h => simp [(List.cons.inj h).1, (List.cons.inj h).2]
  · next hlt hbraces =>
    simp only [Bool.false_eq_true, false_iff]
    rintro (rfl | ⟨rfl, hhead⟩)
    · exact hlt s rfl
    · obtain ⟨s', rfl⟩ := List.head?_eq_some_iff.mp hhead
      exact hbraces s' rfl

/-- Text holds nothing that opens a tag or a mustache. -/
def IsText (t : List Char) : Prop := '<' ∉ t ∧ ¬['{', '{'] <:+: t

/-- Text ends in front of `rest`: there a tag or a mustache opens, and not already with the last
brace of the text. -/
def TextEnds (t rest : List Char) : Prop :=
  (rest = [] ∨ opensMarkup rest = true) ∧ (t.getLast? = some '{' → rest.head? ≠ some '{')

theorem isText_cons {c : Char} {t : List Char} :
    IsText (c :: t) ↔ c ≠ '<' ∧ ¬(c = '{' ∧ t.head? = some '{') ∧ IsText t := by
  have hpair : ['{', '{'] <+: c :: t ↔ c = '{' ∧ t.head? = some '{' := by
    cases t with
    | nil => simp [List.cons_prefix_cons]
    | cons d t => simp [List.cons_prefix_cons, eq_comm]
  rw [IsText, IsText, List.mem_cons, List.infix_cons_iff, hpair]
  tauto

/-- One more character is text when nothing opens with it. -/
theorem isText_cons_textEnds_iff {c : Char} {t rest : List Char} :
    IsText (c :: t) ∧ TextEnds (c :: t) rest ↔
      ¬opensMarkup (c :: (t ++ rest)) = true ∧ IsText t ∧ TextEnds t rest := by
  rw [isText_cons, opensMarkup_cons, TextEnds, TextEnds]
  cases t with
  | nil =>
    simp only [List.head?_nil, List.getLast?_singleton, List.getLast?_nil, List.nil_append,
      Option.some.injEq]
    tauto
  | cons d t =>
    rw [List.getLast?_cons_cons, List.cons_append, List.head?_cons]
    tauto

/-- Text is read up to the first character with which a tag or a mustache opens. -/
theorem spanText_eq_iff : ∀ {s t rest : List Char},
    spanText s = (t, rest) ↔ s = t ++ rest ∧ IsText t ∧ TextEnds t rest
  | [], t, rest => by
    rw [spanText, Prod.mk.injEq, eq_comm, eq_comm (a := []) (b := rest), eq_comm (a := []),
      List.append_eq_nil_iff]
    constructor
    · rintro ⟨rfl, rfl⟩
      exact ⟨⟨rfl, rfl⟩, ⟨by simp, by simp⟩, Or.inl rfl, by simp⟩
    · exact And.left
  | c :: s, [], rest => by
    rw [spanText]
    split
    · next hopen =>
      rw [Prod.mk.injEq]
      constructor
      · rintro ⟨-, rfl⟩
        exact ⟨rfl, ⟨by simp, by simp⟩, Or.inr hopen, by simp⟩
      · rintro ⟨h, -⟩
        exact ⟨rfl, h⟩
    · next hopen =>
      -- text that could go on does not end here
      simp only [Prod.mk.injEq, reduceCtorEq, false_and, List.nil_append, false_iff, not_and]
      rintro rfl - ⟨h | h, -⟩
      · cases h
      · exact hopen h
  | c :: s, d :: t, rest => by
    rw [spanText, isText_cons_textEnds_iff]
    split
    · next hopen =>
      simp only [Prod.mk.injEq, reduceCtorEq, false_and, false_iff, not_and]
      intro h hno
      rw [h] at hopen
      exact absurd hopen hno
    · next hopen =>
      have ih : spanText s = (t, rest) ↔ _ := spanText_eq_iff
      rw [Prod.ext_iff] at ih
      rw [Prod.mk.injEq, List.cons.injEq, List.cons_append, List.cons.injEq, and_assoc, ih]
      constructor
      · rintro ⟨rfl, rfl, htext⟩
        exact ⟨⟨rfl, rfl⟩, hopen, htext⟩
      · rintro ⟨⟨rfl, rfl⟩, -, htext⟩
        exact ⟨rfl, rfl, htext⟩

/-! ## One piece -/

/-- A piece has its first end where it ends: the source of no shorter one is found in it. -/
def Piece.Sound : Piece → Prop
  | startTag name => '>' ∉ name ∧ name.head? ≠ some '/'
  | endTag name => '>' ∉ name
  | mustache body => ¬['}', '}'] <:+: body ++ ['}']
  | text chars => chars ≠ [] ∧ IsText chars

/-- A piece does not run on into `rest`. Only text could. -/
def Piece.EndsAt : Piece → List Char → Prop
  | text chars, rest => TextEnds chars rest
  | startTag _, _ | endTag _, _ | mustache _, _ => True

theorem next_of_not_opensMarkup {s : List Char} (h : ¬opensMarkup s = true) :
    next s = .ok (.text (spanText s).1, (spanText s).2) := by
  unfold next
  split
  · exact absurd rfl h
  · exact absurd rfl h
  · rfl

theorem next_lt {s inner rest : List Char} (h : cutAt? ['>'] s = some (inner, rest)) :
    next ('<' :: s) = .ok (.tag inner, rest) := by
  simp only [next, h]

theorem next_braces {s body rest : List Char} (h : cutAt? ['}', '}'] s = some (body, rest)) :
    next ('{' :: '{' :: s) = .ok (.mustache body, rest) := by
  simp only [next, h]

theorem tag_of_head?_ne {name : List Char} (h : name.head? ≠ some '/') :
    Piece.tag name = .startTag name := by
  unfold Piece.tag
  split
  · exact absurd rfl h
  · rfl

theorem cutAt?_gt_eq_some_iff {s a b : List Char} :
    cutAt? ['>'] s = some (a, b) ↔ s = a ++ ['>'] ++ b ∧ '>' ∉ a := by
  rw [cutAt?_eq_some_iff (List.cons_ne_nil _ _), List.dropLast_singleton, List.append_nil,
    List.singleton_infix_iff]

/-- A piece that neither ends early nor runs on is read back. -/
theorem next_source_append {p : Piece} {rest : List Char} (hsound : p.Sound)
    (hends : p.EndsAt rest) : next (p.source ++ rest) = .ok (p, rest) := by
  cases p with
  | startTag name =>
    have hcut : cutAt? ['>'] (name ++ ['>'] ++ rest) = some (name, rest) :=
      cutAt?_gt_eq_some_iff.mpr ⟨rfl, hsound.1⟩
    rw [Piece.source, List.cons_append, next_lt hcut, tag_of_head?_ne hsound.2]
  | endTag name =>
    have hgt : '>' ∉ '/' :: name := List.not_mem_cons_of_ne_of_not_mem (by decide) hsound
    have hcut : cutAt? ['>'] ('/' :: (name ++ ['>'] ++ rest)) = some ('/' :: name, rest) :=
      cutAt?_gt_eq_some_iff.mpr ⟨rfl, hgt⟩
    rw [Piece.source, List.cons_append, List.cons_append, next_lt hcut]
    rfl
  | mustache body =>
    have hcut : cutAt? ['}', '}'] (body ++ ['}', '}'] ++ rest) = some (body, rest) :=
      (cutAt?_eq_some_iff (List.cons_ne_nil _ _)).mpr ⟨rfl, hsound⟩
    rw [Piece.source, List.cons_append, List.cons_append, next_braces hcut]
  | text chars =>
    have hspan : spanText (chars ++ rest) = (chars, rest) :=
      spanText_eq_iff.mpr ⟨rfl, hsound.2, hends⟩
    obtain ⟨c, t, rfl⟩ := List.exists_cons_of_ne_nil hsound.1
    have hopen : ¬opensMarkup (c :: t ++ rest) = true :=
      (isText_cons_textEnds_iff.mp ⟨hsound.2, hends⟩).1
    rw [Piece.source, next_of_not_opensMarkup hopen, hspan]

/-- Whatever piece is read neither ends early nor runs on. -/
theorem sound_of_next {s rest : List Char} {p : Piece} (hs : s ≠ [])
    (h : next s = .ok (p, rest)) : p.Sound ∧ p.EndsAt rest := by
  have hne := source_ne_nil_of_next hs h
  unfold next at h
  split at h
  · split at h
    · next hcut =>
      simp only [Except.ok.injEq, Prod.mk.injEq] at h
      obtain ⟨rfl, rfl⟩ := h
      exact ⟨((cutAt?_eq_some_iff (List.cons_ne_nil _ _)).mp hcut).2, trivial⟩
    · cases h
  · split at h
    · next inner _ hcut =>
      simp only [Except.ok.injEq, Prod.mk.injEq] at h
      obtain ⟨rfl, rfl⟩ := h
      have hgt := (cutAt?_gt_eq_some_iff.mp hcut).2
      unfold Piece.tag
      split
      · exact ⟨fun hmem => hgt (List.mem_cons_of_mem _ hmem), trivial⟩
      · next hslash =>
        refine ⟨⟨hgt, fun hhead => ?_⟩, trivial⟩
        obtain ⟨name, rfl⟩ := List.head?_eq_some_iff.mp hhead
        exact hslash name rfl
    · cases h
  · simp only [Except.ok.injEq, Prod.mk.injEq] at h
    obtain ⟨rfl, rfl⟩ := h
    obtain ⟨-, htext, hends⟩ := spanText_eq_iff.mp (Eq.refl (spanText s))
    exact ⟨⟨hne, htext⟩, hends⟩

theorem next_eq_ok_iff {s rest : List Char} {p : Piece} (hs : s ≠ []) :
    next s = .ok (p, rest) ↔ s = p.source ++ rest ∧ p.Sound ∧ p.EndsAt rest := by
  constructor
  · intro h
    exact ⟨next_eq_ok h, sound_of_next hs h⟩
  · rintro ⟨rfl, hsound, hends⟩
    exact next_source_append hsound hends

/-! ## All pieces -/

/-- The source of a row of pieces. -/
def sources (ps : List Piece) : List Char := ps.flatMap Piece.source

@[simp] theorem sources_nil : sources [] = [] := rfl

@[simp] theorem sources_cons (p : Piece) (ps : List Piece) :
    sources (p :: ps) = p.source ++ sources ps := List.flatMap_cons

@[simp] theorem sources_append (ps qs : List Piece) :
    sources (ps ++ qs) = sources ps ++ sources qs := List.flatMap_append

/-- The pieces of a text, and the part behind them that begins a piece and does not end it. -/
def pieces (s : List Char) : List Piece × List Char :=
  if _hs : s = [] then ([], []) else
  match _hnext : next s with
  | .error _ => ([], s)
  | .ok (p, rest) => (p :: (pieces rest).1, (pieces rest).2)
termination_by s.length
decreasing_by all_goals exact length_lt_of_next _hs _hnext

/-- Every piece of a row in front of `rest` ends where its source does. -/
def Delimited : List Piece → List Char → Prop
  | [], _ => True
  | p :: ps, rest => p.Sound ∧ p.EndsAt (sources ps ++ rest) ∧ Delimited ps rest

/-- Text that no piece can be read from, though it is not empty. -/
def Stuck (s : List Char) : Prop := ∃ u, next s = .error u

theorem pieces_nil : pieces [] = ([], []) := by
  rw [pieces, dif_pos rfl]

theorem pieces_of_next {s rest : List Char} {p : Piece} (hs : s ≠ [])
    (h : next s = .ok (p, rest)) : pieces s = (p :: (pieces rest).1, (pieces rest).2) := by
  rw [pieces, dif_neg hs]
  split
  · next hnext => rw [h] at hnext; cases hnext
  · next hnext =>
    rw [h] at hnext
    cases hnext
    rfl

theorem pieces_of_stuck {s : List Char} (hs : s ≠ []) (h : Stuck s) : pieces s = ([], s) := by
  obtain ⟨u, hu⟩ := h
  rw [pieces, dif_neg hs]
  split
  · rfl
  · next hnext => rw [hu] at hnext; cases hnext

theorem pieces_spec (s : List Char) :
    sources (pieces s).1 ++ (pieces s).2 = s ∧ Delimited (pieces s).1 (pieces s).2 ∧
      ((pieces s).2 ≠ [] → Stuck (pieces s).2) := by
  fun_induction pieces s with
  | case1 => exact ⟨rfl, trivial, fun h => absurd rfl h⟩
  | case2 s hs u hnext => exact ⟨rfl, trivial, fun _ => ⟨u, hnext⟩⟩
  | case3 s hs p rest hnext ih =>
    obtain ⟨hsource, hdelim, hstuck⟩ := ih
    obtain ⟨hsound, hends⟩ := sound_of_next hs hnext
    refine ⟨?_, ⟨hsound, hsource.symm ▸ hends, hdelim⟩, hstuck⟩
    rw [sources_cons, List.append_assoc, hsource, next_eq_ok hnext]

theorem source_ne_nil {p : Piece} (h : p.Sound) : p.source ≠ [] := by
  cases p with
  | text chars => exact h.1
  | startTag _ | endTag _ | mustache _ => exact List.cons_ne_nil _ _

theorem pieces_sources_append : ∀ {ps : List Piece} {rest : List Char}, Delimited ps rest →
    (rest ≠ [] → Stuck rest) → pieces (sources ps ++ rest) = (ps, rest)
  | [], rest, _, hstuck => by
    by_cases hrest : rest = []
    · rw [hrest]
      exact pieces_nil
    · exact pieces_of_stuck hrest (hstuck hrest)
  | p :: ps, rest, ⟨hsound, hends, hdelim⟩, hstuck => by
    have hne : p.source ++ (sources ps ++ rest) ≠ [] :=
      List.append_ne_nil_of_left_ne_nil (source_ne_nil hsound) _
    rw [sources_cons, List.append_assoc, pieces_of_next hne (next_source_append hsound hends),
      pieces_sources_append hdelim hstuck]

/-- A text has the pieces that it is made up of, and no others. -/
theorem pieces_eq_iff {s rest : List Char} {ps : List Piece} :
    pieces s = (ps, rest) ↔
      s = sources ps ++ rest ∧ Delimited ps rest ∧ (rest ≠ [] → Stuck rest) := by
  constructor
  · intro h
    have hspec := pieces_spec s
    rw [h] at hspec
    exact ⟨hspec.1.symm, hspec.2⟩
  · rintro ⟨rfl, hdelim, hstuck⟩
    exact pieces_sources_append hdelim hstuck

/-! ## Neighbours -/

/-- One piece may stand in front of another: text is never followed by text, and text that ends
with an opening brace is not followed by a mustache. -/
def Piece.Precedes : Piece → Piece → Prop
  | text _, text _ => False
  | text chars, mustache _ => chars.getLast? ≠ some '{'
  | text _, startTag _ | text _, endTag _ => True
  | startTag _, _ | endTag _, _ | mustache _, _ => True

theorem endsAt_nil (p : Piece) : p.EndsAt [] := by
  cases p with
  | text chars => exact ⟨Or.inl rfl, fun _ => by simp⟩
  | startTag _ | endTag _ | mustache _ => trivial

theorem endsAt_source_iff {p q : Piece} {rest : List Char} (hq : q.Sound) (hends : q.EndsAt rest) :
    p.EndsAt (q.source ++ rest) ↔ p.Precedes q := by
  cases p with
  | startTag _ | endTag _ | mustache _ => exact Iff.rfl
  | text chars =>
    cases q with
    | startTag _ | endTag _ =>
      refine iff_of_true ⟨Or.inr rfl, fun _ h => ?_⟩ trivial
      cases h
    | mustache body =>
      refine ⟨fun h hlast => h.2 hlast rfl, fun h => ⟨Or.inr rfl, fun hlast => absurd hlast h⟩⟩
    | text chars' =>
      obtain ⟨c, t, rfl⟩ := List.exists_cons_of_ne_nil hq.1
      refine iff_of_false (fun h => ?_) id
      rcases h.1 with h | h
      · cases h
      · exact (isText_cons_textEnds_iff.mp ⟨hq.2, hends⟩).1 h

/-- Up to the end of a text, the pieces are delimited when each may stand in front of the next. -/
theorem delimited_nil_iff : ∀ {ps : List Piece},
    Delimited ps [] ↔ (∀ p ∈ ps, p.Sound) ∧ ps.IsChain Piece.Precedes
  | [] => by simp [Delimited]
  | [p] => by simp [Delimited, endsAt_nil]
  | p :: q :: ps => by
    have ih : Delimited (q :: ps) [] ↔ _ := delimited_nil_iff
    have hedge (h : Delimited (q :: ps) []) :
        p.EndsAt (sources (q :: ps) ++ []) ↔ p.Precedes q := by
      rw [sources_cons, List.append_assoc]
      exact endsAt_source_iff h.1 h.2.1
    rw [Delimited, List.isChain_cons_cons, List.forall_mem_cons]
    constructor
    · rintro ⟨hsound, hends, hdelim⟩
      obtain ⟨hall, hchain⟩ := ih.mp hdelim
      exact ⟨⟨hsound, hall⟩, (hedge hdelim).mp hends, hchain⟩
    · rintro ⟨⟨hsound, hall⟩, hprec, hchain⟩
      have hdelim := ih.mpr ⟨hall, hchain⟩
      exact ⟨hsound, (hedge hdelim).mpr hprec, hdelim⟩

end MarkupTree.Tags
