import MarkupTree.Proofs.Position.Strict
import MarkupTree.Proofs.Tags.Verdict

/-!
# Rounds of the parser

The parser keeps a byte index into the source. In a round it looks for the end of what begins there,
has a token made of it, and goes on behind it. Here a round is made with arithmetic and indices that
may stop: the index must stand between characters, the span of a token must have a width and lie
inside the source, and a tag must have a byte on either side of its name.

* `find?_braces`, `find?_gt`, `textEnd_eq` — what the searches for the ends of a piece find
* `tokenAt_piece` — for a piece of a source in ASCII a token can be made
* `round_of_next`, `round_of_stuck` — so a round does not stop, and reads the next piece
* `round_progress` — a round comes further, and not past the end
-/

namespace MarkupTree.Strict

open Text Tags
open String (utf8Len)

/-! ## Searches -/

/-- The byte index at which a mark is first found. -/
def find? (mark s : List Char) : Option Nat := (cutAt? mark s).map fun p => utf8Len p.1

/-- The length of the text in front of the next tag or mustache. -/
def textEnd (s : List Char) : Nat :=
  (([find? ['<'] s, find? ['{', '{'] s].filterMap id).min?).getD (utf8Len s)

/-- The name in an end tag. -/
def endName? : List Char → Option (List Char)
  | '<' :: '/' :: s => if s.getLast? = some '>' then some s.dropLast else none
  | _ => none

/-- The text between the first and the last byte. -/
def inner? (s : List Char) : Option (List Char) :=
  if 1 ≤ utf8Len s then part? s 1 (utf8Len s - 1) else none

/-! ## Rounds -/

/-- The parser between two rounds. -/
structure Loop where
  pos : Nat
  builder : Builder
  counter : Counter

/-- A part of a run: it may stop, find a mistake, or go on. -/
abbrev Run (α : Type) := ExceptT (SyntaxError × Counter) Option α

/-- The token between two byte indices of a source in ASCII. The span must have a width and end
inside the source. -/
def tokenAt (source : List Char) (start stop : Nat) (counter : Counter) : Run (Token × Counter) :=
  if start < stop ∧ stop ≤ utf8Len source then
    liftM (fragment source (UInt32.ofNat start) (UInt32.ofNat stop) counter)
  else ExceptT.mk none

/-- Reads a mustache, to the first pair of closing braces. -/
def readMustache (source rest : List Char) (l : Loop) : Run Loop :=
  match find? ['}', '}'] rest with
  | none => throw (⟨.unterminated .mustache, UInt32.ofNat l.pos⟩, l.counter)
  | some n => do
    let stop := l.pos + n + 2
    let (token, counter) ← tokenAt source l.pos stop l.counter
    return ⟨stop, l.builder.add (Node.parent .block token [] []), counter⟩

/-- Takes in the token of a tag that ends at `stop`. -/
def acceptTag (l : Loop) (stop : Nat) (token : Token) (counter : Counter) : Run Loop :=
  match endName? token.raw with
  | some name =>
    match l.builder.close name token with
    | .error mistake => throw (⟨mistake, UInt32.ofNat l.pos⟩, counter)
    | .ok builder => return ⟨stop, builder, counter⟩
  | none => do
    let name ← inner? token.raw
    return ⟨stop, { l.builder with opened := { token, name } :: l.builder.opened }, counter⟩

/-- Reads a tag, to the first closing bracket. -/
def readTag (source rest : List Char) (l : Loop) : Run Loop :=
  match find? ['>'] rest with
  | none => throw (⟨.unterminated .tag, UInt32.ofNat l.pos⟩, l.counter)
  | some n => do
    let stop := l.pos + n + 1
    let (token, counter) ← tokenAt source l.pos stop l.counter
    acceptTag l stop token counter

/-- Reads text, to the next tag or mustache. -/
def readText (source rest : List Char) (l : Loop) : Run Loop := do
  let stop := l.pos + textEnd rest
  let (token, counter) ← tokenAt source l.pos stop l.counter
  return ⟨stop, l.builder.add (Node.leaf .text token), counter⟩

/-- A round of the parser. -/
def round (source : List Char) (l : Loop) : Run Loop := do
  let rest ← part? source l.pos (utf8Len source)
  if ['{', '{'].isPrefixOf rest then readMustache source rest l
  else if ['<'].isPrefixOf rest then readTag source rest l
  else readText source rest l

/-! ## What the searches find -/

theorem find?_cons (mark : List Char) (c : Char) (s : List Char) :
    find? mark (c :: s)
      = if mark.isPrefixOf (c :: s) then some 0 else (find? mark s).map (· + c.utf8Size) := by
  rw [find?, cutAt?, find?]
  split
  · rfl
  · rw [Option.map_map, Option.map_map]
    rfl

theorem opensMarkup_eq (c : Char) (s : List Char) :
    opensMarkup (c :: s) = (['<'].isPrefixOf (c :: s) || ['{', '{'].isPrefixOf (c :: s)) := by
  rw [Bool.eq_iff_iff, opensMarkup_cons, Bool.or_eq_true, List.isPrefixOf_iff_prefix,
    List.isPrefixOf_iff_prefix]
  cases s with
  | nil => simp [List.cons_prefix_cons, eq_comm]
  | cons d s => simp [List.cons_prefix_cons, eq_comm]

theorem textEnd_cons (c : Char) (s : List Char) :
    textEnd (c :: s) = if opensMarkup (c :: s) then 0 else textEnd s + c.utf8Size := by
  rw [textEnd, find?_cons, find?_cons, opensMarkup_eq, textEnd]
  cases ['<'].isPrefixOf (c :: s) with
  | true =>
    cases ['{', '{'].isPrefixOf (c :: s) <;> cases find? ['{', '{'] s <;> simp [List.min?]
  | false =>
    cases ['{', '{'].isPrefixOf (c :: s) with
    | true => cases find? ['<'] s <;> simp [List.min?]
    | false =>
      -- neither mark stands here, so both are found one character later than in the rest
      cases find? ['<'] s <;> cases find? ['{', '{'] s <;>
        simp [List.min?, Nat.add_min_add_right]

theorem textEnd_eq : ∀ s : List Char, textEnd s = utf8Len (spanText s).1
  | [] => rfl
  | c :: s => by
    rw [textEnd_cons, spanText]
    split
    · rfl
    · rw [textEnd_eq s, String.utf8Len_cons]

theorem endName?_source (name : List Char) : endName? (Piece.endTag name).source = some name := by
  rw [Piece.source, endName?, List.getLast?_concat, if_pos rfl, List.dropLast_concat]

theorem endName?_of_head?_ne {name : List Char} (h : name.head? ≠ some '/') :
    endName? (Piece.startTag name).source = none := by
  cases name with
  | nil => rfl
  | cons c name =>
    have hc : c ≠ '/' := fun e => h (by rw [e]; rfl)
    unfold endName?
    split
    · next s he =>
      rw [Piece.source, List.cons_append, List.cons.injEq, List.cons.injEq] at he
      exact absurd he.2.1 hc
    · rfl

theorem inner?_source (name : List Char) : inner? (Piece.startTag name).source = some name := by
  have hopen : ('<' : Char).utf8Size = 1 := by decide
  have hclose : ('>' : Char).utf8Size = 1 := by decide
  have hlen : utf8Len (Piece.startTag name).source = utf8Len name + 2 := by
    simp [Piece.source, hopen, hclose]
  have hpart := part?_append ['<'] name ['>']
  rw [inner?, hlen, if_pos (by omega)]
  simpa [Piece.source, hopen] using hpart

/-! ## Tokens of pieces -/

section

variable {source : List Char} (hascii : Dialect.isAscii source = true)

include hascii

theorem part?_rest {before rest : List Char} (hsource : source = before ++ rest) :
    part? source before.length (utf8Len source) = some rest := by
  have hlead : Dialect.isAscii before = true := by
    rw [hsource, isAscii_append, Bool.and_eq_true] at hascii
    exact hascii.1
  have hpart := part?_append before rest []
  rwa [List.append_nil, ← hsource, utf8Len_of_isAscii hlead] at hpart

variable (hlen : source.length < UInt32.size - 1)

include hlen

/-- For a piece of the source a token can be made. -/
theorem tokenAt_piece {before rest : List Char} {p : Piece}
    (hsource : source = before ++ (p.source ++ rest)) (hsound : p.Sound) {c : Cursor}
    (hc : c.pos = before.length) :
    tokenAt source c.pos (c.pos + p.source.length) ⟨c.id⟩
      = pure (c.token .baseline source p, ⟨(c.step p).id⟩) := by
  have hpos := List.length_pos_iff.mpr (source_ne_nil hsound)
  have hlength : before.length + (p.source.length + rest.length) = source.length := by
    rw [hsource, List.length_append, List.length_append]
  have hle : UInt32.ofNat c.pos ≤ UInt32.ofNat (c.pos + p.source.length) := by
    rw [UInt32.le_iff_toNat_le, UInt32.toNat_ofNat_of_lt' (by omega),
      UInt32.toNat_ofNat_of_lt' (by omega)]
    omega
  have hfragment := fragment_piece .baseline hascii (by omega) hsource hc
  rw [tokenAt, utf8Len_of_isAscii hascii, if_pos (by omega), fragment_eq _ hle hfragment]
  · rfl
  · rw [unitCount_of_isAscii hascii]
    exact hlen

end

/-! ## Reading a piece -/

section

variable {source rest : List Char} {l : Loop} {token : Token} {counter : Counter}

theorem find?_braces (s : List Char) :
    find? ['}', '}'] ('{' :: '{' :: s) = (cutAt? ['}', '}'] s).map fun p => utf8Len p.1 + 2 := by
  rw [find?_cons, if_neg nofun, find?_cons, if_neg nofun, find?, Option.map_map, Option.map_map]
  rfl

theorem find?_gt (s : List Char) :
    find? ['>'] ('<' :: s) = (cutAt? ['>'] s).map fun p => utf8Len p.1 + 1 := by
  rw [find?_cons, if_neg nofun, find?, Option.map_map]
  rfl

theorem readMustache_eq {body : List Char} (hsound : (Piece.mustache body).Sound)
    (hascii : Dialect.isAscii (Piece.mustache body).source = true)
    (htoken : tokenAt source l.pos (l.pos + (Piece.mustache body).source.length) l.counter
      = pure (token, counter)) :
    readMustache source ((Piece.mustache body).source ++ rest) l
      = pure ⟨l.pos + (Piece.mustache body).source.length,
          l.builder.add (Node.parent .block token [] []), counter⟩ := by
  have hbody : Dialect.isAscii body = true := by
    simpa [Piece.source, Dialect.isAscii] using hascii
  have hcut : cutAt? ['}', '}'] (body ++ ['}', '}'] ++ rest) = some (body, rest) :=
    (cutAt?_eq_some_iff (List.cons_ne_nil _ _)).mpr ⟨rfl, hsound⟩
  have hfind : find? ['}', '}'] ((Piece.mustache body).source ++ rest)
      = some (body.length + 2) := by
    rw [Piece.source, List.cons_append, List.cons_append, find?_braces, hcut, Option.map_some,
      utf8Len_of_isAscii hbody]
  have hstop : l.pos + (body.length + 2) + 2 = l.pos + (Piece.mustache body).source.length := by
    simp only [Piece.source, List.length_cons, List.length_append, List.length_nil]
    omega
  rw [readMustache, hfind]
  dsimp only
  rw [hstop, htoken, pure_bind]

theorem readTag_eq {p : Piece} {inner : List Char} (hp : Piece.tag inner = p) (hgt : '>' ∉ inner)
    (hascii : Dialect.isAscii p.source = true)
    (htoken : tokenAt source l.pos (l.pos + p.source.length) l.counter = pure (token, counter)) :
    readTag source (p.source ++ rest) l = acceptTag l (l.pos + p.source.length) token counter := by
  rw [← hp, source_tag] at hascii htoken ⊢
  have hinner : Dialect.isAscii inner = true := by
    simpa [Dialect.isAscii] using hascii
  have hcut : cutAt? ['>'] (inner ++ ['>'] ++ rest) = some (inner, rest) :=
    cutAt?_gt_eq_some_iff.mpr ⟨rfl, hgt⟩
  have hfind : find? ['>'] ('<' :: (inner ++ ['>']) ++ rest) = some (inner.length + 1) := by
    rw [List.cons_append, find?_gt, hcut, Option.map_some, utf8Len_of_isAscii hinner]
  have hstop : l.pos + (inner.length + 1) + 1 = l.pos + ('<' :: (inner ++ ['>'])).length := by
    rw [List.length_cons, List.length_append, List.length_singleton]
    omega
  rw [readTag, hfind]
  dsimp only
  rw [hstop, htoken, pure_bind]

theorem readText_eq {chars : List Char} (hsound : (Piece.text chars).Sound)
    (hends : (Piece.text chars).EndsAt rest) (hascii : Dialect.isAscii chars = true)
    (htoken : tokenAt source l.pos (l.pos + (Piece.text chars).source.length) l.counter
      = pure (token, counter)) :
    readText source ((Piece.text chars).source ++ rest) l
      = pure ⟨l.pos + (Piece.text chars).source.length,
          l.builder.add (Node.leaf .text token), counter⟩ := by
  have hspan : spanText ((Piece.text chars).source ++ rest) = (chars, rest) :=
    spanText_eq_iff.mpr ⟨rfl, hsound.2, hends⟩
  have hend : textEnd ((Piece.text chars).source ++ rest) = (Piece.text chars).source.length := by
    rw [textEnd_eq, hspan, utf8Len_of_isAscii hascii]
    rfl
  rw [readText, hend, htoken, pure_bind]

/-- The token of a piece is taken in as the piece. -/
def takeIn (l : Loop) (stop : Nat) (token : Token) (counter : Counter) (p : Piece) : Run Loop :=
  match l.builder.accept token p with
  | .error mistake => throw (⟨mistake, UInt32.ofNat l.pos⟩, counter)
  | .ok builder => return ⟨stop, builder, counter⟩

theorem acceptTag_startTag {name : List Char} (hname : name.head? ≠ some '/') (stop : Nat)
    (hraw : token.raw = (Piece.startTag name).source) :
    acceptTag l stop token counter = takeIn l stop token counter (.startTag name) := by
  rw [acceptTag, hraw, endName?_of_head?_ne hname, inner?_source]
  rfl

theorem acceptTag_endTag {name : List Char} (stop : Nat)
    (hraw : token.raw = (Piece.endTag name).source) :
    acceptTag l stop token counter = takeIn l stop token counter (.endTag name) := by
  rw [acceptTag, hraw, endName?_source]
  rfl

end

/-! ## A round -/

section

variable {source : List Char} (hascii : Dialect.isAscii source = true)

include hascii

/-- A round reads the next piece and takes it in. -/
theorem round_of_next (hlen : source.length < UInt32.size - 1) {before rest : List Char} {p : Piece}
    (hsource : source = before ++ (p.source ++ rest)) (hsound : p.Sound) (hends : p.EndsAt rest)
    {c : Cursor} (hc : c.pos = before.length) (b : Builder) :
    round source ⟨c.pos, b, ⟨c.id⟩⟩
      = takeIn ⟨c.pos, b, ⟨c.id⟩⟩ (c.step p).pos (c.token .baseline source p) ⟨(c.step p).id⟩
        p := by
  have htoken := tokenAt_piece hascii hlen hsource hsound hc
  have hrest := part?_rest hascii hsource
  have hpiece : Dialect.isAscii p.source = true := by
    rw [hsource, isAscii_append, isAscii_append, Bool.and_eq_true, Bool.and_eq_true] at hascii
    exact hascii.2.1
  have hraw : (c.token .baseline source p).raw = p.source := rfl
  rw [← hc] at hrest
  rw [round, hrest, liftM_some, pure_bind]
  cases p with
  | mustache body =>
    have hopens : ['{', '{'].isPrefixOf ((Piece.mustache body).source ++ rest) = true := rfl
    rw [if_pos hopens, readMustache_eq hsound hpiece htoken]
    rfl
  | startTag name =>
    have hbraces : ¬['{', '{'].isPrefixOf ((Piece.startTag name).source ++ rest) = true := nofun
    have hopens : ['<'].isPrefixOf ((Piece.startTag name).source ++ rest) = true := rfl
    rw [if_neg hbraces, if_pos hopens,
      readTag_eq (tag_of_head?_ne hsound.2) hsound.1 hpiece htoken]
    exact acceptTag_startTag hsound.2 _ hraw
  | endTag name =>
    have hbraces : ¬['{', '{'].isPrefixOf ((Piece.endTag name).source ++ rest) = true := nofun
    have hopens : ['<'].isPrefixOf ((Piece.endTag name).source ++ rest) = true := rfl
    have hgt : '>' ∉ '/' :: name := List.not_mem_cons_of_ne_of_not_mem (by decide) hsound
    have htag : Piece.tag ('/' :: name) = .endTag name := rfl
    rw [if_neg hbraces, if_pos hopens, readTag_eq htag hgt hpiece htoken]
    exact acceptTag_endTag _ hraw
  | text chars =>
    have hneither : ¬['<'].isPrefixOf ((Piece.text chars).source ++ rest) = true ∧
        ¬['{', '{'].isPrefixOf ((Piece.text chars).source ++ rest) = true := by
      obtain ⟨d, t, rfl⟩ := List.exists_cons_of_ne_nil hsound.1
      have hopen := (isText_cons_textEnds_iff.mp ⟨hsound.2, hends⟩).1
      rwa [opensMarkup_eq, Bool.or_eq_true, not_or] at hopen
    rw [if_neg hneither.2, if_neg hneither.1, readText_eq hsound hends hpiece htoken]
    rfl

/-- Where nothing more can be read, a round ends the run. -/
theorem round_of_stuck {before rest : List Char} (hsource : source = before ++ rest)
    {u : Unterminated} (hnext : next rest = .error u) {pos : Nat} (hpos : pos = before.length)
    (b : Builder) (counter : Counter) :
    round source ⟨pos, b, counter⟩ = throw (⟨.unterminated u, UInt32.ofNat pos⟩, counter) := by
  have hrest := part?_rest hascii hsource
  rw [← hpos] at hrest
  rw [round, hrest, liftM_some, pure_bind]
  unfold next at hnext
  split at hnext
  · next s =>
    have hopens : ['{', '{'].isPrefixOf ('{' :: '{' :: s) = true := rfl
    split at hnext
    · cases hnext
    · next hcut =>
      cases hnext
      rw [if_pos hopens, readMustache, find?_braces, hcut]
      rfl
  · next s =>
    have hbraces : ¬['{', '{'].isPrefixOf ('<' :: s) = true := nofun
    have hopens : ['<'].isPrefixOf ('<' :: s) = true := rfl
    split at hnext
    · cases hnext
    · next hcut =>
      cases hnext
      rw [if_neg hbraces, if_pos hopens, readTag, find?_gt, hcut]
      rfl
  · cases hnext

end

/-! ## Progress -/

section

variable {source : List Char} {start stop : Nat} {counter : Counter} {l l' : Loop}

/-- What goes on behind a token has come to its end. -/
theorem bounds_of_tokenAt_bind {next : Token × Counter → Run Loop}
    (hnext : ∀ made l', (next made).run = some (.ok l') → l'.pos = stop)
    (h : (tokenAt source start stop counter >>= next).run = some (.ok l')) :
    start < l'.pos ∧ l'.pos ≤ utf8Len source := by
  unfold tokenAt at h
  split at h
  · next hbounds =>
    cases hmade : fragment source (UInt32.ofNat start) (UInt32.ofNat stop) counter with
    | none => rw [hmade] at h; cases h
    | some made =>
      rw [hmade, liftM_some, pure_bind] at h
      rwa [hnext made l' h]
  · cases h

theorem pos_of_acceptTag {token : Token}
    (h : (acceptTag l stop token counter).run = some (.ok l')) : l'.pos = stop := by
  unfold acceptTag at h
  split at h
  · split at h
    · cases h
    · cases h
      rfl
  · cases hname : inner? token.raw with
    | none => rw [hname] at h; cases h
    | some name =>
      rw [hname] at h
      cases h
      rfl

/-- A round comes further, and not past the end of the source. -/
theorem round_progress (h : (round source l).run = some (.ok l')) :
    l.pos < l'.pos ∧ l'.pos ≤ utf8Len source := by
  unfold round at h
  cases hrest : part? source l.pos (utf8Len source) with
  | none => rw [hrest] at h; cases h
  | some rest =>
    rw [hrest, liftM_some, pure_bind] at h
    split at h
    · unfold readMustache at h
      split at h
      · cases h
      · refine bounds_of_tokenAt_bind ?_ h
        intro made l' hmade
        cases hmade
        rfl
    · split at h
      · unfold readTag at h
        split at h
        · cases h
        · exact bounds_of_tokenAt_bind (fun made l' hmade => pos_of_acceptTag hmade) h
      · refine bounds_of_tokenAt_bind ?_ h
        intro made l' hmade
        cases hmade
        rfl

end

end MarkupTree.Strict
