import MarkupTree.Proofs.Tags.Rounds

/-!
# To the end of a source

The rounds of the parser come to an end: each takes at least one byte, so there are no more rounds
than the source has bytes. No round stops, and what the rounds make of the source is the answer of
the parser: a tree, or a parse error whose offset lies in front of the end.

* `run_eq` — the rounds together are a run of the parser
* `parse_answers` — with a round for every byte there is an answer, that of the dialect
* `offset_lt_of_parse` — where a mistake is reported
* `parsesToEnd` — all of it, with the progress of a round
-/

namespace MarkupTree.Strict

open Text Tags
open String (utf8Len)

/-! ## Runs -/

/-- Rounds until the end of the source, of which there may be no more than `rounds`. -/
def run (source : List Char) (rounds : Nat) (l : Loop) : Run Loop :=
  if l.pos < utf8Len source then
    match rounds with
    | 0 => ExceptT.mk none
    | rounds + 1 => do run source rounds (← round source l)
  else return l

/-- Reads a source in so many rounds. -/
def parse (source : List Char) (rounds : Nat) (counter : Counter) :
    Option (Except ParseError Document × Counter) :=
  if Dialect.isAscii source then do
    match ← (run source rounds ⟨0, {}, counter⟩).run with
    | .error (e, counter) => return (.error (Dialect.parseError e), counter)
    | .ok l => return (l.builder.finish.mapError Dialect.parseError, l.counter)
  else return (.error (.unsupported "non-ASCII source"), counter)

/-- The answer of a run as that of the parser. -/
def reported : Except (SyntaxError × Counter) Loop → Except (Failure SyntaxError) Builder × Counter
  | .ok l => (.ok l.builder, l.counter)
  | .error (e, counter) => (.error (.error e), counter)

section

variable {source : List Char} (hascii : Dialect.isAscii source = true)
  (hlen : source.length < UInt32.size - 1)

include hascii hlen

/-- With a round for every byte that is left, a run does not stop, and does what the parser does. -/
theorem run_eq : ∀ (rounds : Nat) {before rest : List Char} {c : Cursor} (b : Builder),
    source = before ++ rest → c.pos = before.length → rest.length ≤ rounds →
      ∃ answer, (run source rounds ⟨c.pos, b, ⟨c.id⟩⟩).run = some answer ∧
        parsePieces .baseline source rest c.pos b ⟨c.id⟩ = reported answer := by
  intro rounds before rest c b hsource hc hrounds
  have hend := utf8Len_of_isAscii hascii
  have hlength : source.length = before.length + rest.length := by
    rw [hsource, List.length_append]
  by_cases hrest : rest = []
  · have hdone : ¬c.pos < utf8Len source := by
      rw [hend, hc, hlength, hrest]
      exact Nat.lt_irrefl _
    unfold run
    rw [if_neg hdone, hrest, parsePieces_nil]
    exact ⟨.ok _, rfl, rfl⟩
  · have hpos := List.length_pos_iff.mpr hrest
    have hgo : c.pos < utf8Len source := by omega
    unfold run
    rw [if_pos hgo]
    cases rounds with
    | zero => omega
    | succ rounds =>
      dsimp only
      cases hnext : next rest with
      | error u =>
        rw [round_of_stuck hascii hsource hnext hc, parsePieces_of_stuck .baseline hrest hnext]
        exact ⟨.error _, rfl, rfl⟩
      | ok read =>
        obtain ⟨p, rest'⟩ := read
        obtain ⟨hsound, hends⟩ := sound_of_next hrest hnext
        have hless := length_lt_of_next hrest hnext
        rw [next_eq_ok hnext] at hsource ⊢
        rw [round_of_next hascii hlen hsource hsound hends hc, takeIn,
          parsePieces_step .baseline hascii (by omega) hsource hsound hends hc]
        dsimp only
        cases b.accept (c.token .baseline source p) p with
        | error mistake => exact ⟨.error _, rfl, rfl⟩
        | ok b' =>
          rw [← List.append_assoc] at hsource
          have hstep : (c.step p).pos = (before ++ p.source).length := by
            rw [Cursor.step, hc, List.length_append]
          exact run_eq rounds b' hsource hstep (by omega)

end

end MarkupTree.Strict

namespace MarkupTree.Dialect

open String (utf8Len)

/-! ## To the end -/

/-- What becomes of any source. -/
structure ParsesToEnd (d : Dialect) (source : List Char) (counter : Counter) : Prop where
  /-- With a round for every byte nothing stops: there is a tree or a parse error, as the dialect
  answers. -/
  answers : ∃ answer counter',
    Strict.parse source (utf8Len source) counter = some (answer, counter') ∧
      d.parse source counter = (answer.mapError Failure.error, counter')
  /-- A round that is followed by another comes further, and not past the end. -/
  progress : ∀ l l', (Strict.round source l).run = some (.ok l') →
    l.pos < l'.pos ∧ l'.pos ≤ utf8Len source
  /-- A mistake has an offset in front of the end. -/
  located : ∀ detail offset,
    (d.parse source counter).1 = .error (.error (.invalidSource detail offset)) →
      ∃ k, offset = some k ∧ k.toNat < utf8Len source

theorem parse_answers {d : Dialect} (hd : d = .markup ∨ d = .template) {source : List Char}
    (hlen : Text.unitCount source < UInt32.size - 1) (counter : Counter) :
    ∃ answer counter', Strict.parse source (utf8Len source) counter = some (answer, counter') ∧
      d.parse source counter = (answer.mapError Failure.error, counter') := by
  unfold Strict.parse Dialect.parse
  by_cases hascii : Dialect.isAscii source = true
  · rw [Text.unitCount_of_isAscii hascii] at hlen
    have hrounds : source.length ≤ utf8Len source := by
      rw [Text.utf8Len_of_isAscii hascii]
    obtain ⟨answer, hrun, hparse⟩ :=
      Strict.run_eq hascii hlen _ (c := ⟨0, counter.next⟩) {} (List.nil_append source).symm rfl
        hrounds
    have hrun : (Strict.run source (utf8Len source) ⟨0, {}, counter⟩).run = some answer := hrun
    have hparse : Tags.parsePieces .baseline source source 0 {} counter
        = Strict.reported answer := hparse
    rw [if_pos hascii, if_pos hascii, hrun, rules_eq_baseline hd, Tags.parse, hparse]
    cases answer with
    | error mistake => exact ⟨.error _, _, rfl, rfl⟩
    | ok l =>
      refine ⟨_, _, rfl, ?_⟩
      rw [Strict.reported]
      dsimp only
      cases l.builder.finish <;> rfl
  · rw [if_neg hascii, if_neg hascii]
    exact ⟨_, _, rfl, rfl⟩

theorem offset_lt_of_parse {d : Dialect} {source : List Char}
    (hlen : Text.unitCount source < UInt32.size) {counter : Counter} {detail : String}
    {offset : Option UInt32}
    (h : (d.parse source counter).1 = .error (.error (.invalidSource detail offset))) :
    ∃ k, offset = some k ∧ k.toNat < utf8Len source := by
  rw [parse_eq_verdict hlen] at h
  split at h
  · next hascii =>
    rw [Text.unitCount_of_isAscii hascii] at hlen
    cases hverdict : Tags.verdict source with
    | ok items => rw [hverdict] at h; cases h
    | error flaw =>
      have hpos := Tags.pos_lt_of_verdict hverdict
      rw [hverdict] at h
      cases h
      refine ⟨_, rfl, ?_⟩
      rwa [UInt32.toNat_ofNat_of_lt' (by omega), Text.utf8Len_of_isAscii hascii]
  · cases h

/-- Every source is parsed to its end, or to its first mistake. -/
theorem parsesToEnd {d : Dialect} (hd : d = .markup ∨ d = .template) {source : List Char}
    (hlen : Text.unitCount source < UInt32.size - 1) (counter : Counter) :
    d.ParsesToEnd source counter where
  answers := parse_answers hd hlen counter
  progress := fun _ _ h => Strict.round_progress h
  located := fun _ _ h => offset_lt_of_parse (by omega) h

/-- Closing braces, a lone brace in an element without a name, and a tag that does not end. -/
theorem parsesToEnd_malformed :
    let source := ['}', '}', '<', '>', '{', '<', '/', '>', '<', '/', 'a', '{', '{', 'b']
    Text.unitCount source < UInt32.size - 1 ∧ Dialect.ParsesToEnd .markup source ⟨1⟩ := by
  intro source
  have hlen : Text.unitCount source < UInt32.size - 1 := by decide
  exact ⟨hlen, parsesToEnd (Or.inl rfl) hlen ⟨1⟩⟩

end MarkupTree.Dialect
