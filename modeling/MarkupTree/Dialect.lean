import MarkupTree.Conformance.Check
import MarkupTree.ParseError
import MarkupTree.Tags.Parser

/-!
# Dialects

A dialect of tagged text has a name, the file extensions it is known by, and its position rules.
Only sources in ASCII are read.

* `rules_eq_baseline` — both dialects count positions as plain markup does
* `canParse_iff` — a dialect knows an extension in any case of its ASCII letters
* `parse_of_not_isAscii` — any other source is refused as a whole
-/

namespace MarkupTree

/-- A dialect of tagged text. -/
structure Dialect where
  name : String
  extensions : List String
  rules : PositionRules

namespace Dialect

/-- Plain markup. -/
def markup : Dialect := ⟨"fixture-html", ["html", "htm"], .baseline⟩

/-- Templates of single-file components. -/
def template : Dialect := ⟨"fixture-template", ["vue"], .baseline⟩

theorem rules_eq_baseline {d : Dialect} (hd : d = .markup ∨ d = .template) :
    d.rules = .baseline := by
  rcases hd with rfl | rfl <;> rfl

/-- The characters of a file extension with their ASCII letters in lower case. -/
def folded (extension : String) : List Char := extension.toList.map Char.toLower

/-- Whether the dialect reads files with an extension. -/
def canParse (d : Dialect) (extension : String) : Bool :=
  d.extensions.any fun known => folded known == folded extension

theorem canParse_iff {d : Dialect} {extension : String} :
    d.canParse extension = true ↔ ∃ known ∈ d.extensions, folded known = folded extension := by
  simp [canParse]

/-- Whether a text has ASCII characters only. -/
def isAscii (s : List Char) : Bool := s.all fun c => c.toNat < 0x80

/-- A syntax error as a parse error. -/
def parseError (e : Tags.SyntaxError) : ParseError :=
  .invalidSource e.mistake.message (some e.offset)

/-- A failure of the parser as one that reports a parse error. -/
def failure : Failure Tags.SyntaxError → Failure ParseError
  | .fault fault => .fault fault
  | .error e => .error (parseError e)

/-- Reads a source. -/
def parse (d : Dialect) (source : List Char) (counter : Counter) :
    Except (Failure ParseError) Document × Counter :=
  if isAscii source then
    let parsed := Tags.parse d.rules source counter
    (parsed.1.mapError failure, parsed.2)
  else (.error (.error (.unsupported "non-ASCII source")), counter)

theorem parse_of_not_isAscii {d : Dialect} {source : List Char} {counter : Counter}
    (h : isAscii source = false) :
    d.parse source counter = (.error (.error (.unsupported "non-ASCII source")), counter) := by
  simp [parse, h]

end Dialect

end MarkupTree
