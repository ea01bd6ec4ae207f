import MarkupTree.Text.Units

/-!
# Texts as UTF-16 code units

The code units themselves, of which offsets and lengths count how many there are. A character of
the basic plane is one unit, its own number; any other is a surrogate pair.

* `length_encode` — a text has as many code units as it counts
* `unitsBetween_append` — the code units of a middle part of a text
-/

namespace MarkupTree.Text

/-- The code units of a character. -/
def encodeChar (c : Char) : List UInt16 :=
  if c.toNat < 0x10000 then [UInt16.ofNat c.toNat]
  else
    [UInt16.ofNat (0xD800 + (c.toNat - 0x10000) / 0x400),
      UInt16.ofNat (0xDC00 + (c.toNat - 0x10000) % 0x400)]

/-- The code units of a text. -/
def encode (s : List Char) : List UInt16 := s.flatMap encodeChar

theorem length_encodeChar (c : Char) : (encodeChar c).length = (unitWidth c).toNat := by
  unfold encodeChar unitWidth
  split <;> rfl

/-- A text has as many code units as it counts. -/
theorem length_encode : ∀ s : List Char, (encode s).length = unitCount s
  | [] => rfl
  | c :: s => by
    rw [encode, List.flatMap_cons, List.length_append, length_encodeChar, ← encode,
      length_encode s, unitCount]

theorem encode_append (s t : List Char) : encode (s ++ t) = encode s ++ encode t :=
  List.flatMap_append

/-- The code units of a text behind the first `start` and among the first `stop`. -/
def unitsBetween (s : List Char) (start stop : Nat) : List UInt16 :=
  ((encode s).take stop).drop start

theorem unitsBetween_self (s : List Char) (offset : Nat) : unitsBetween s offset offset = [] :=
  List.drop_eq_nil_of_le (List.length_take_le _ _)

/-- A middle part of a text has the code units between the numbers of units up to its two ends. -/
theorem unitsBetween_append (a b c : List Char) :
    unitsBetween (a ++ b ++ c) (unitCount a) (unitCount (a ++ b)) = encode b := by
  rw [unitsBetween, encode_append, ← length_encode (a ++ b), List.take_left, encode_append,
    ← length_encode a, List.drop_left]

/-- Two units of one character, and one of another. -/
example : unitsBetween ['a', '😀', 'b'] 1 4 = [0xD83D, 0xDE00, 0x62] := by decide

end MarkupTree.Text
