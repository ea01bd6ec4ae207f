/-!
# Lines of a text

Only `\n` ends a line: `\r\n` is one break, and a lone `\r` is an ordinary character.

* `throughBreak_append_lastLine` — a text is its complete lines and then its last line
* `not_mem_lastLine` — the last line holds no break
* `lastLine_append_of_mem` — only the text behind the last break counts
-/

namespace MarkupTree.Text

/-- The number of line breaks in a text. -/
def breakCount (s : List Char) : Nat := s.count '\n'

theorem breakCount_append (s t : List Char) :
    breakCount (s ++ t) = breakCount s + breakCount t := List.count_append

/-- The text behind the last line break, all of it when there is no break. -/
def lastLine (s : List Char) : List Char := (s.reverse.takeWhile (· != '\n')).reverse

/-- The text up to and with the last line break, empty when there is no break. -/
def throughBreak (s : List Char) : List Char := (s.reverse.dropWhile (· != '\n')).reverse

theorem throughBreak_append_lastLine (s : List Char) : throughBreak s ++ lastLine s = s := by
  rw [throughBreak, lastLine, ← List.reverse_append, List.takeWhile_append_dropWhile,
    List.reverse_reverse]

theorem not_mem_lastLine (s : List Char) : '\n' ∉ lastLine s := by
  intro h
  have hall := List.all_eq_true.mp (List.all_takeWhile (l := s.reverse) (p := (· != '\n')))
  simpa using hall '\n' (List.mem_reverse.mp h)

/-- Without a break the last line is the whole text. -/
theorem lastLine_of_not_mem {s : List Char} (h : '\n' ∉ s) : lastLine s = s := by
  have hall : ∀ c ∈ s.reverse, (c != '\n') = true := by
    intro c hc
    have : c ≠ '\n' := fun e => h (e ▸ List.mem_reverse.mp hc)
    simpa using this
  rw [lastLine, ← List.append_nil s.reverse, List.takeWhile_append_of_pos hall,
    List.takeWhile_nil, List.append_nil, List.reverse_reverse]

/-- With a break in `t`, what stands in front of `t` does not change the last line. -/
theorem lastLine_append_of_mem {s t : List Char} (h : '\n' ∈ t) :
    lastLine (s ++ t) = lastLine t := by
  have hne : (t.reverse.takeWhile (· != '\n')).length ≠ t.reverse.length := by
    intro hlen
    have heq := (List.takeWhile_prefix (l := t.reverse) (· != '\n')).eq_of_length hlen
    have hall := List.all_eq_true.mp (List.all_takeWhile (l := t.reverse) (p := (· != '\n')))
    rw [heq] at hall
    simpa using hall '\n' (List.mem_reverse.mpr h)
  rw [lastLine, List.reverse_append, List.takeWhile_append, if_neg hne]
  rfl

/-- Without a break in `t`, its characters are added to the last line. -/
theorem lastLine_append_of_not_mem {s t : List Char} (h : '\n' ∉ t) :
    lastLine (s ++ t) = lastLine s ++ t := by
  have hall : ∀ c ∈ t.reverse, (c != '\n') = true := by
    intro c hc
    have : c ≠ '\n' := fun e => h (e ▸ List.mem_reverse.mp hc)
    simpa using this
  rw [lastLine, List.reverse_append, List.takeWhile_append_of_pos hall, List.reverse_append,
    List.reverse_reverse]
  rfl

end MarkupTree.Text
