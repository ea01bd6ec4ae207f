import MarkupTree.Text.Combining
import MarkupTree.Text.Unprintable

/-!
# Quoted text

A text inside a message stands in double quotes, on one line and without invisible characters: the
quote and the backslash are written behind a backslash, tab, line feed, carriage return and NUL as
letters, and every other character that has no shape of its own or joins the one in front of it as
its code point.
-/

namespace MarkupTree.Text

/-- The digits of `n` to the base sixteen, in lower case. -/
def hexDigits (n : Nat) : List Char := Nat.toDigits 16 n

/-- How a character is written inside quotes. -/
def quotedChar (c : Char) : List Char :=
  if c = '"' then ['\\', '"']
  else if c = '\\' then ['\\', '\\']
  else if c = '\t' then ['\\', 't']
  else if c = '\n' then ['\\', 'n']
  else if c = '\r' then ['\\', 'r']
  else if c = '\x00' then ['\\', '0']
  else if isUnprintable c || isCombining c then ['\\', 'u', '{'] ++ hexDigits c.toNat ++ ['}']
  else [c]

/-- A text in quotes. -/
def quoted (s : List Char) : List Char := '"' :: (s.flatMap quotedChar ++ ['"'])

end MarkupTree.Text
