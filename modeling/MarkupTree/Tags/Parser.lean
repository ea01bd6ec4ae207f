import MarkupTree.Node
import MarkupTree.Tags.Piece
import MarkupTree.Token.Factory

/-!
# The tree of tagged text

Every piece of a text gets a token. A start tag opens an element, an end tag of the same name
closes it, and mustaches and text are added to the innermost open element. The end tag becomes the
pear of its start tag.

Children are kept latest first while their element is open. The parser ends because every piece
leaves less to read.

* `add_opened_length` — adding a node opens and closes nothing
* `parsePieces_nil` — at the end of the text the tree stays as it is
-/

namespace MarkupTree.Tags

/-! ## Errors -/

/-- What is wrong with a text. -/
inductive Mistake where
  | unterminated (piece : Unterminated)
  /-- An end tag that closes nothing. -/
  | stray (name : List Char)
  /-- An end tag of another name than `name`, that of the innermost open element. -/
  | expected (name : List Char)
  /-- An element that is still open at the end. -/
  | unclosed (name : List Char)
deriving DecidableEq, Repr

/-- The text shown for a mistake. -/
def Mistake.message : Mistake → String
  | unterminated .mustache => "unterminated mustache"
  | unterminated .tag => "unterminated tag"
  | stray name => s!"stray </{String.ofList name}>"
  | expected name => s!"expected </{String.ofList name}>"
  | unclosed name => s!"unclosed <{String.ofList name}>"

/-- A mistake and the offset of the piece at fault. -/
structure SyntaxError where
  mistake : Mistake
  offset : UInt32
deriving DecidableEq, Repr

/-! ## Building the tree -/

/-- An open element: its start tag, and its children so far, latest first. -/
structure Open where
  token : Token
  name : List Char
  children : List Node := []

/-- A tree in the making: the open elements from the innermost, and the finished nodes of the first
level, latest first. -/
structure Builder where
  opened : List Open := []
  roots : List Node := []

namespace Builder

/-- Adds a node to the innermost open element. -/
def add (b : Builder) (n : Node) : Builder :=
  match b.opened with
  | [] => { b with roots := n :: b.roots }
  | o :: os => { b with opened := { o with children := n :: o.children } :: os }

theorem add_opened_length (b : Builder) (n : Node) :
    (b.add n).opened.length = b.opened.length := by
  unfold add
  split
  · next h => simp [h]
  · next h => simp [h]

/-- The element that `o` becomes when `token` closes it. -/
def element (o : Open) (token : Token) : Node :=
  { Node.parent .startTag o.token o.name o.children.reverse with
    pear := some (Node.parent .endTag token o.name []) }

/-- Closes the innermost open element, which must be called `name`. -/
def close (b : Builder) (name : List Char) (token : Token) : Except Mistake Builder :=
  match b.opened with
  | [] => .error (.stray name)
  | o :: os =>
    if o.name = name then .ok ({ b with opened := os }.add (element o token))
    else .error (.expected o.name)

/-- Takes in a piece and its token. -/
def accept (b : Builder) (token : Token) : Piece → Except Mistake Builder
  | .startTag name => .ok { b with opened := { token, name } :: b.opened }
  | .endTag name => b.close name token
  | .mustache _ => .ok (b.add (Node.parent .block token [] []))
  | .text _ => .ok (b.add (Node.leaf .text token))

/-- The finished tree, if no element is open. -/
def finish (b : Builder) : Except SyntaxError Document :=
  match b.opened with
  | [] => .ok { nodes := b.roots.reverse, isFragment := true }
  | o :: _ => .error ⟨.unclosed o.name, o.token.startOffset⟩

end Builder

/-! ## Reading -/

/-- Reads the pieces of `rest`, the part of the source behind its first `pos` characters. -/
def parsePieces (rules : PositionRules) (source rest : List Char) (pos : Nat) (b : Builder)
    (counter : Counter) : Except (Failure SyntaxError) Builder × Counter :=
  if _hrest : rest = [] then (.ok b, counter) else
  match _hnext : next rest with
  | .error piece => (.error (.error ⟨.unterminated piece, UInt32.ofNat pos⟩), counter)
  | .ok (piece, rest') =>
    let stop := pos + piece.source.length
    match Token.fragment rules source (UInt32.ofNat pos) (UInt32.ofNat stop) counter with
    | (.error fault, counter) => (.error (.fault fault), counter)
    | (.ok token, counter) =>
      match b.accept token piece with
      | .error mistake => (.error (.error ⟨mistake, UInt32.ofNat pos⟩), counter)
      | .ok b => parsePieces rules source rest' stop b counter
termination_by rest.length
decreasing_by exact length_lt_of_next _hrest _hnext

theorem parsePieces_nil (rules : PositionRules) (source : List Char) (pos : Nat) (b : Builder)
    (counter : Counter) : parsePieces rules source [] pos b counter = (.ok b, counter) := by
  rw [parsePieces, dif_pos rfl]

/-- The tree of a text of ASCII characters, in which characters and units are the same. -/
def parse (rules : PositionRules) (source : List Char) (counter : Counter) :
    Except (Failure SyntaxError) Document × Counter :=
  match parsePieces rules source source 0 {} counter with
  | (.error failure, counter) => (.error failure, counter)
  | (.ok b, counter) => (b.finish.mapError Failure.error, counter)

end MarkupTree.Tags
