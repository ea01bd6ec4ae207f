import MarkupTree.Text.Quoted

/-!
# JSON values

The fields of an object keep their order. A number with a fraction or an exponent is kept as it is
written: nothing here computes with it.

* `text` — the compact text of a value, without blanks
-/

namespace MarkupTree

/-- A JSON value. -/
inductive Json where
  | null
  | bool (b : Bool)
  | int (n : Int)
  | real (literal : List Char)
  | string (s : List Char)
  | array (items : List Json)
  | object (fields : List (String × Json))
deriving Inhabited

namespace Json

/-- A number that is not negative. -/
def nat (n : Nat) : Json := int n

/-- A 32-bit number. -/
def word (n : UInt32) : Json := nat n.toNat

/-- A 64-bit number. -/
def depth (n : UInt64) : Json := nat n.toNat

/-- `null` for nothing. -/
def option {α : Type} (f : α → Json) : Option α → Json
  | none => null
  | some a => f a

/-! ## Text -/

/-- How a character is written inside a string. -/
def escaped (c : Char) : List Char :=
  if c = '"' then ['\\', '"']
  else if c = '\\' then ['\\', '\\']
  else if c = '\x08' then ['\\', 'b']
  else if c = '\t' then ['\\', 't']
  else if c = '\n' then ['\\', 'n']
  else if c = '\x0c' then ['\\', 'f']
  else if c = '\r' then ['\\', 'r']
  else if c.toNat < 0x10 then ['\\', 'u', '0', '0', '0'] ++ Text.hexDigits c.toNat
  else if c.toNat < 0x20 then ['\\', 'u', '0', '0'] ++ Text.hexDigits c.toNat
  else [c]

/-- A string in quotes. -/
def stringText (s : List Char) : List Char := '"' :: (s.flatMap escaped ++ ['"'])

/-- The text of an integer. -/
def intText (n : Int) : List Char :=
  if n < 0 then '-' :: Nat.toDigits 10 n.natAbs else Nat.toDigits 10 n.natAbs

mutual

/-- The compact text of a value, put in front of `rest`. -/
def textOnto (rest : List Char) : Json → List Char
  | null => "null".toList ++ rest
  | bool true => "true".toList ++ rest
  | bool false => "false".toList ++ rest
  | int n => intText n ++ rest
  | real literal => literal ++ rest
  | string s => stringText s ++ rest
  | array items => '[' :: itemsOnto (']' :: rest) items
  | object fields => '\x7b' :: fieldsOnto ('\x7d' :: rest) fields

/-- The texts of the items of an array, with commas between them, put in front of `rest`. -/
def itemsOnto (rest : List Char) : List Json → List Char
  | [] => rest
  | [v] => textOnto rest v
  | v :: vs => textOnto (',' :: itemsOnto rest vs) v

/-- The texts of the fields of an object, with commas between them, put in front of `rest`. -/
def fieldsOnto (rest : List Char) : List (String × Json) → List Char
  | [] => rest
  | [(key, v)] => stringText key.toList ++ ':' :: textOnto rest v
  | (key, v) :: fs => stringText key.toList ++ ':' :: textOnto (',' :: fieldsOnto rest fs) v

end

/-- The compact text of a value. -/
def text (v : Json) : List Char := textOnto [] v

end Json

end MarkupTree
