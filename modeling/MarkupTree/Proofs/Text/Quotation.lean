import MarkupTree.Proofs.Token.Identity

/-!
# Reading a quoted text

Inside quotes a character is written as itself, as a letter behind a backslash, or as its code
point. Which of these it is can be told from the first characters, and where it ends as well, so a
quoted text is read back character by character up to the quote that closes it.

* `quotes_quotedChar` — the ways to write a character
* `Quotes.append_inj` — what is written tells the character, with anything behind it
* `quoted_append_inj`, `quoted_injective` — and so do quoted texts
-/

namespace MarkupTree.Text

/-! ## Characters -/

/-- The characters that are written as a letter behind a backslash. -/
def escapes : List (Char × Char) :=
  [('"', '"'), ('\\', '\\'), ('\t', 't'), ('\n', 'n'), ('\r', 'r'), ('\x00', '0')]

/-- The ways to write a character inside quotes. -/
inductive Quotes : Char → List Char → Prop
  | letter {c l : Char} (h : (c, l) ∈ escapes) : Quotes c ['\\', l]
  | code (c : Char) : Quotes c (['\\', 'u', '{'] ++ hexDigits c.toNat ++ ['}'])
  | plain {c : Char} (hquote : c ≠ '"') (hbackslash : c ≠ '\\') : Quotes c [c]

theorem quotes_quotedChar (c : Char) : Quotes c (quotedChar c) := by
  by_cases h : ∃ l, (c, l) ∈ escapes
  · obtain ⟨l, h⟩ := h
    simp only [escapes, List.mem_cons, Prod.mk.injEq, List.not_mem_nil, or_false] at h
    rcases h with ⟨rfl, -⟩ | ⟨rfl, -⟩ | ⟨rfl, -⟩ | ⟨rfl, -⟩ | ⟨rfl, -⟩ | ⟨rfl, -⟩ <;>
      exact .letter (by decide)
  · have hne {d l : Char} (hd : (d, l) ∈ escapes) : c ≠ d := by
      rintro rfl
      exact h ⟨l, hd⟩
    have hquote : c ≠ '"' := hne (l := '"') (by decide)
    have hbackslash : c ≠ '\\' := hne (l := '\\') (by decide)
    rw [quotedChar, if_neg hquote, if_neg hbackslash, if_neg (hne (l := 't') (by decide)),
      if_neg (hne (l := 'n') (by decide)), if_neg (hne (l := 'r') (by decide)),
      if_neg (hne (l := '0') (by decide))]
    split
    · exact .code c
    · exact .plain hquote hbackslash

/-- The letter behind a backslash tells the character, and none is that of a code point. -/
theorem escapes_inj : ∀ p ∈ escapes, p.2 ≠ 'u' ∧ ∀ q ∈ escapes, p.2 = q.2 → p.1 = q.1 := by decide

/-- What is written tells the character, with anything behind it. -/
theorem Quotes.append_inj {c d : Char} {u v s t : List Char} (hc : Quotes c u) (hd : Quotes d v)
    (h : u ++ s = v ++ t) : c = d ∧ s = t := by
  cases hc with
  | letter hl =>
    obtain ⟨hcode, hinj⟩ := escapes_inj _ hl
    cases hd with
    | letter hm =>
      obtain ⟨hletter, rfl⟩ := List.cons.inj (List.cons.inj h).2
      exact ⟨hinj _ hm hletter, rfl⟩
    | code => exact absurd (List.cons.inj (List.cons.inj h).2).1 hcode
    | plain _ hbackslash => exact absurd (List.cons.inj h).1.symm hbackslash
  | code =>
    cases hd with
    | letter hm => exact absurd (List.cons.inj (List.cons.inj h).2).1.symm (escapes_inj _ hm).1
    | code =>
      rw [List.append_assoc, List.append_assoc, List.append_assoc, List.append_assoc,
        List.append_right_inj, List.singleton_append, List.singleton_append] at h
      -- a code point ends at the brace
      have hbrace : '}'.isAlphanum = false := by decide
      obtain ⟨hvalue, -, rfl⟩ := (toDigits_append_inj (by decide) (by decide) hbrace hbrace).mp h
      exact ⟨Char.toNat_inj.mp hvalue, rfl⟩
    | plain _ hbackslash => exact absurd (List.cons.inj h).1.symm hbackslash
  | plain _ hbackslash =>
    cases hd with
    | letter | code => exact absurd (List.cons.inj h).1 hbackslash
    | plain => exact List.cons.inj h

/-- Nothing inside quotes begins with a quote. -/
theorem Quotes.append_ne {c : Char} {u s t : List Char} (hc : Quotes c u) : u ++ s ≠ '"' :: t := by
  intro h
  cases hc with
  | letter | code => exact absurd (List.cons.inj h).1 (by decide)
  | plain hquote _ => exact hquote (List.cons.inj h).1

/-! ## Texts -/

theorem flatMap_quotedChar_append_inj : ∀ {a b s t : List Char},
    a.flatMap quotedChar ++ '"' :: s = b.flatMap quotedChar ++ '"' :: t → a = b ∧ s = t
  | [], [], _, _, h => ⟨rfl, (List.cons.inj h).2⟩
  | [], d :: b, _, _, h => by
    rw [List.flatMap_cons, List.append_assoc] at h
    exact absurd h.symm (quotes_quotedChar d).append_ne
  | c :: a, [], _, _, h => by
    rw [List.flatMap_cons, List.append_assoc] at h
    exact absurd h (quotes_quotedChar c).append_ne
  | c :: a, d :: b, _, _, h => by
    rw [List.flatMap_cons, List.flatMap_cons, List.append_assoc, List.append_assoc] at h
    obtain ⟨rfl, hrest⟩ := (quotes_quotedChar c).append_inj (quotes_quotedChar d) h
    obtain ⟨rfl, hbehind⟩ := flatMap_quotedChar_append_inj hrest
    exact ⟨rfl, hbehind⟩

/-- A quoted text ends with its closing quote. -/
theorem quoted_append_inj {a b s t : List Char} :
    quoted a ++ s = quoted b ++ t ↔ a = b ∧ s = t := by
  constructor
  · intro h
    simp only [quoted, List.cons_append, List.append_assoc, List.nil_append] at h
    exact flatMap_quotedChar_append_inj (List.cons.inj h).2
  · rintro ⟨rfl, rfl⟩
    rfl

theorem quoted_injective : Function.Injective quoted := fun a b h =>
  (quoted_append_inj (s := []) (t := []).mp (by rw [h])).1

end MarkupTree.Text
