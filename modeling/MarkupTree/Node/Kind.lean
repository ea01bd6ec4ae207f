/-!
# Kinds of nodes

* `ofTag?_eq_some_iff` — a tag names one kind, and a kind has one tag
-/

namespace MarkupTree

/-- The kind of a node. -/
inductive NodeKind where
  | doctype
  | startTag
  | endTag
  /-- A tag that the source leaves out. -/
  | omittedTag
  | comment
  | text
  /-- A block of another language inside the markup, such as a mustache. -/
  | block
  | invalid
deriving DecidableEq, Repr

namespace NodeKind

/-- Every kind. -/
def all : List NodeKind := [doctype, startTag, endTag, omittedTag, comment, text, block, invalid]

/-- The name of a kind in dumps, messages and serialized trees. -/
def tag : NodeKind → List Char
  | doctype => "#doctype".toList
  | startTag => "starttag".toList
  | endTag => "endtag".toList
  | omittedTag => "omittedtag".toList
  | comment => "#comment".toList
  | text => "#text".toList
  | block => "#ps-block".toList
  | invalid => "#invalid".toList

/-- The kind of a given name. -/
def ofTag? (s : List Char) : Option NodeKind := all.find? fun k => k.tag == s

theorem ofTag?_eq_some_iff {s : List Char} {k : NodeKind} : ofTag? s = some k ↔ k.tag = s := by
  constructor
  · intro h
    simpa using List.find?_some h
  · rintro rfl
    cases k <;> decide

/-- Whether a node of this kind has a list of children. -/
def carriesChildren : NodeKind → Bool
  | startTag | endTag | omittedTag | block => true
  | doctype | comment | text | invalid => false

/-- Whether this is the kind of end tags. -/
def isEndTag (k : NodeKind) : Bool := k == endTag

/-- Whether a node of this kind is a tag of an element. -/
def isElement : NodeKind → Bool
  | startTag | endTag | omittedTag => true
  | doctype | comment | text | block | invalid => false

end NodeKind

end MarkupTree
