import MarkupTree.Proofs.Dump.Record
import MarkupTree.Proofs.Dump.Tree
import MarkupTree.Proofs.Tags.Verdict
import MarkupTree.Walk.Preorder

/-!
# Where the lines of a dump break

A dump is meant to be read line by line. The numbers and signs of its lines hold no blank but the
space, and a drawing holds none at all. But a label is written as it is. So a line break or a tab in
a line comes from the name in its label, and a name may be any text: that of an element can run over
two lines of its source.

* `mem_node_iff`, `exists_mem_record_iff` — where a blank of a line comes from
* `readLines_joined_iff` — which rows of lines can be joined and read back
* `unbroken_iff` — a dump has unbroken lines, and can be read back, exactly when its labels do not
  break
* `broken_by_labels` — the dumps of a parsed source and of two attributes that break
-/

namespace MarkupTree

open Text

/-! ## Texts without blanks -/

namespace Text

/-- A text that holds no blank. -/
def BlankFree (s : List Char) : Prop := ∀ c ∈ s, isBlank c = false

instance (s : List Char) : Decidable (BlankFree s) :=
  List.decidableBAll (isBlank · = false) s

@[simp] theorem blankFree_nil : BlankFree [] := List.forall_mem_nil _

@[simp] theorem blankFree_append_iff {s t : List Char} :
    BlankFree (s ++ t) ↔ BlankFree s ∧ BlankFree t := List.forall_mem_append

@[simp] theorem blankFree_visible (s : List Char) : BlankFree (visible s) :=
  fun _ => isBlank_of_mem_visible

theorem isBlank_of_isDigit {c : Char} (h : c.isDigit = true) : isBlank c = false := by
  have hdigit : 48 ≤ c.toNat ∧ c.toNat ≤ 57 := by
    simpa [Char.isDigit, UInt32.le_iff_toNat_le] using h
  simp only [isBlank, blankRanges, List.any_cons, List.any_nil, Bool.or_false,
    Bool.or_eq_false_iff, Bool.and_eq_false_iff, decide_eq_false_iff_not]
  omega

@[simp] theorem blankFree_decimal (n : UInt32) : BlankFree (decimal n) :=
  fun _ h => isBlank_of_isDigit (isDigit_of_mem_decimal h)

theorem BlankFree.not_mem {s : List Char} (h : BlankFree s) {c : Char} (hc : isBlank c = true) :
    c ∉ s :=
  fun hmem => Bool.false_ne_true ((h c hmem).symm.trans hc)

end Text

namespace Dump

@[simp] theorem blankFree_place (t : Token) : BlankFree (place t) := by
  simp only [place, Position.display, blankFree_append_iff, blankFree_decimal, true_and, and_true]
  decide

@[simp] theorem blankFree_noPlace : BlankFree noPlace := by decide

/-! ## Blanks in a line -/

section

variable {c : Char} (hblank : isBlank c = true) (hspace : c ≠ ' ')

include hblank hspace

/-- Between a place and a drawing, a blank other than the space stands in the label. -/
theorem mem_line_iff {p l s : List Char} (hp : BlankFree p) (hs : BlankFree s) :
    c ∈ line p l s ↔ c ∈ l := by
  have hcolon : c ≠ ':' := fun h => absurd hblank (by rw [h]; decide)
  simp [line, hp.not_mem hblank, hs.not_mem hblank, hspace, hcolon]

theorem mem_tokenLine_iff {l : List Char} {t : Token} : c ∈ tokenLine l t ↔ c ∈ l :=
  mem_line_iff hblank hspace (blankFree_place t) (blankFree_visible t.raw)

/-- Only the name of a node can break its line. -/
theorem mem_node_iff {n : Node} : c ∈ node n ↔ c ∈ n.name := by
  unfold node
  split
  · exact mem_line_iff hblank hspace blankFree_noPlace (blankFree_visible n.raw)
  · rw [mem_tokenLine_iff hblank hspace]
    cases hname : n.name with
    | nil =>
      -- the label is then that of the kind
      have htag : BlankFree n.kind.tag := by cases n.kind <;> decide
      exact iff_of_false (htag.not_mem hblank) List.not_mem_nil
    | cons d name => rfl

theorem not_mem_fieldLine {l : List Char} (hl : BlankFree l) (o : Option Token) :
    c ∉ fieldLine l o := by
  cases o with
  | none =>
    rw [fieldLine, mem_line_iff hblank hspace blankFree_noPlace blankFree_nil]
    exact hl.not_mem hblank
  | some t =>
    rw [fieldLine, mem_tokenLine_iff hblank hspace]
    exact hl.not_mem hblank

/-- The lines below the first one of a record have labels of their own, which do not break. -/
theorem not_mem_detailLines {a : Attribute} {l : List Char} (h : l ∈ detailLines a) : c ∉ l := by
  have hlabels : ∀ l ∈ fieldLabels, BlankFree l := by decide
  have hflag {l : List Char} (hl : BlankFree l) (b : Bool) : c ∉ flagLine l b := by
    have hvalue : BlankFree (if b then "true" else "false").toList := by cases b <;> decide
    have hline : flagLine l b = line [] l (if b then "true" else "false").toList := by
      simp [flagLine, line]
    rw [hline, mem_line_iff hblank hspace blankFree_nil hvalue]
    exact hl.not_mem hblank
  cases a with
  | block a => exact absurd h List.not_mem_nil
  | html a =>
    rw [detailLines, htmlLines, List.mem_append] at h
    rcases h with hfield | hflags
    · obtain ⟨i, hi, rfl⟩ := List.mem_iff_getElem.mp hfield
      rw [List.getElem_zipWith]
      exact not_mem_fieldLine hblank hspace (hlabels _ (List.getElem_mem _)) _
    · simp only [List.mem_cons, List.not_mem_nil, or_false] at hflags
      rcases hflags with rfl | rfl | rfl
      all_goals exact hflag (by decide) _

theorem not_mem_potentialNameLine (name : List Char) : c ∉ potentialNameLine name := by
  have hhead : "potentialName: ".toList = "potentialName:".toList ++ [' '] := rfl
  have hword : BlankFree "potentialName:".toList := by decide
  intro h
  rcases List.mem_append.mp h with hlabel | hname
  · rcases List.mem_append.mp (hhead ▸ hlabel) with hin | hlast
    · exact hword.not_mem hblank hin
    · exact hspace (List.mem_singleton.mp hlast)
  · exact (blankFree_visible name).not_mem hblank hname

/-- Only the label of its first line can break a record. -/
theorem exists_mem_record_iff {a : Attribute} : (∃ l ∈ record a, c ∈ l) ↔ c ∈ label a := by
  have hbelow : ¬∃ l ∈ (detailLines a ++ a.potentialName.toList.map potentialNameLine).map
      indented, c ∈ l := by
    rintro ⟨l, hl, hmem⟩
    obtain ⟨m, hm, rfl⟩ := List.mem_map.mp hl
    have hin : c ∈ m := by simpa [indented, hspace] using hmem
    rcases List.mem_append.mp hm with hdetail | hname
    · exact not_mem_detailLines hblank hspace hdetail hin
    · obtain ⟨name, -, rfl⟩ := List.mem_map.mp hname
      exact not_mem_potentialNameLine hblank hspace name hin
  rw [record, List.exists_mem_cons_iff, mem_tokenLine_iff hblank hspace, or_iff_left hbelow, label]

theorem forall_not_mem_record_iff {a : Attribute} : (∀ l ∈ record a, c ∉ l) ↔ c ∉ label a := by
  rw [← exists_mem_record_iff hblank hspace]
  push Not
  rfl

end

/-! ## Joining lines and reading them back -/

/-- The lines of a row behind each other, with a break between two of them. -/
def joined (lines : List (List Char)) : List Char := ['\n'].intercalate lines

/-- The lines of a text. Where there is no text there is no line. -/
def readLines (s : List Char) : List (List Char) := if s = [] then [] else s.splitOn '\n'

/-- What is read as a line holds no break. -/
theorem not_mem_of_mem_splitOn {c : Char} : ∀ {s l : List Char}, l ∈ s.splitOn c → c ∉ l
  | [], l, h => by
    rw [List.splitOn_nil, List.mem_singleton] at h
    exact h ▸ List.not_mem_nil
  | d :: s, l, h => by
    obtain ⟨first, rest, hsplit⟩ := List.exists_cons_of_ne_nil (List.splitOn_ne_nil c s)
    have ih {m : List Char} (hm : m ∈ first :: rest) : c ∉ m :=
      not_mem_of_mem_splitOn (hsplit ▸ hm)
    rw [List.splitOn_cons_eq_if_modifyHead, hsplit] at h
    split at h
    · rcases List.mem_cons.mp h with rfl | hl
      · exact List.not_mem_nil
      · exact ih hl
    · next hd =>
      rcases List.mem_cons.mp h with rfl | hl
      · -- the character is put in front of the first line, and it is no break
        have hne : c ≠ d := fun e => hd (beq_iff_eq.mpr e.symm)
        simp [hne, ih List.mem_cons_self]
      · exact ih (List.mem_cons_of_mem _ hl)

/-- Lines that are not empty can be joined and read back exactly when none of them breaks. -/
theorem readLines_joined_iff {lines : List (List Char)} (hne : ∀ l ∈ lines, l ≠ []) :
    readLines (joined lines) = lines ↔ ∀ l ∈ lines, '\n' ∉ l := by
  cases lines with
  | nil => simp [readLines, joined]
  | cons l ls =>
    have hfirst : l ≠ [] := hne l List.mem_cons_self
    have htext : joined (l :: ls) ≠ [] := by
      cases ls with
      | nil => simpa [joined] using hfirst
      | cons m ms => simp [joined, List.intercalate_cons_cons, hfirst]
    rw [readLines, if_neg htext, joined]
    constructor
    · intro h m hm
      rw [← h] at hm
      exact not_mem_of_mem_splitOn hm
    · intro h
      exact List.splitOn_intercalate '\n' h (List.cons_ne_nil l ls)

/-! ## Dumps with unbroken lines -/

/-- A line that stays one line of a dump: it holds no line break and no tab. -/
def Unbroken (l : List Char) : Prop := '\n' ∉ l ∧ '\t' ∉ l

theorem unbroken_node_iff {n : Node} : Unbroken (node n) ↔ Unbroken n.name := by
  rw [Unbroken, Unbroken, mem_node_iff (by decide) (by decide),
    mem_node_iff (by decide) (by decide)]

theorem unbroken_record_iff {a : Attribute} :
    (∀ l ∈ record a, Unbroken l) ↔ Unbroken (label a) := by
  simp only [Unbroken, forall_and]
  rw [forall_not_mem_record_iff (by decide) (by decide),
    forall_not_mem_record_iff (by decide) (by decide)]

theorem line_ne_nil (p l s : List Char) : line p l s ≠ [] := by simp [line]

theorem node_ne_nil (n : Node) : node n ≠ [] := by
  unfold node
  split
  · exact line_ne_nil _ _ _
  · exact line_ne_nil _ _ _

theorem ne_nil_of_mem_record {a : Attribute} {l : List Char} (h : l ∈ record a) : l ≠ [] := by
  rcases List.mem_cons.mp h with rfl | hl
  · exact line_ne_nil _ _ _
  · obtain ⟨m, -, rfl⟩ := List.mem_map.mp hl
    simp [indented]

/-- In the dumps of nodes no line breaks exactly when no name does, and in those of attributes exactly
when the label of no attribute does. On this it hangs, too, whether the lines of a dump can be joined
and read back. All other parts of a line are unbroken whatever nodes and attributes hold. -/
theorem unbroken_iff (nodes : List Node) (attributes : List Attribute) :
    ((∀ l ∈ nodeList nodes, Unbroken l) ↔ ∀ n ∈ nodes, Unbroken n.name) ∧
      ((∀ l ∈ tree nodes, Unbroken l) ↔ ∀ n ∈ flatten nodes, Unbroken n.name) ∧
      ((∀ r ∈ attributeList attributes, ∀ l ∈ r, Unbroken l) ↔
        ∀ a ∈ attributes, Unbroken (label a)) ∧
      (readLines (joined (nodeList nodes)) = nodeList nodes ↔ ∀ n ∈ nodes, '\n' ∉ n.name) ∧
      (readLines (joined (tree nodes)) = tree nodes ↔ ∀ n ∈ flatten nodes, '\n' ∉ n.name) ∧
      (readLines (joined (attributeList attributes).flatten) = (attributeList attributes).flatten ↔
        ∀ a ∈ attributes, '\n' ∉ label a) := by
  have hnodes (ns : List Node) : (∀ l ∈ nodeList ns, Unbroken l) ↔ ∀ n ∈ ns, Unbroken n.name := by
    simp only [nodeList, List.forall_mem_map, unbroken_node_iff]
  have hread (ns : List Node) :
      readLines (joined (nodeList ns)) = nodeList ns ↔ ∀ n ∈ ns, '\n' ∉ n.name := by
    have hlines : ∀ l ∈ nodeList ns, l ≠ [] := List.forall_mem_map.mpr fun n _ => node_ne_nil n
    rw [readLines_joined_iff hlines, nodeList, List.forall_mem_map]
    simp only [mem_node_iff (c := '\n') (by decide) (by decide)]
  refine ⟨hnodes nodes, hnodes (flatten nodes), ?_, hread nodes, hread (flatten nodes), ?_⟩
  · simp only [attributeList, List.forall_mem_map, unbroken_record_iff]
  · have hlines : ∀ l ∈ (attributeList attributes).flatten, l ≠ [] := by
      intro l hl
      obtain ⟨r, hr, hl⟩ := List.mem_flatten.mp hl
      obtain ⟨a, -, rfl⟩ := List.mem_map.mp hr
      exact ne_nil_of_mem_record hl
    rw [readLines_joined_iff hlines, List.forall_mem_flatten, attributeList, List.forall_mem_map]
    simp only [forall_not_mem_record_iff (c := '\n') (by decide) (by decide)]

/-- The name of a parsed element that runs over two lines breaks the dump of its document. That of an
attribute breaks the first line of its record, though it is drawn in the last one. -/
theorem broken_by_labels :
    let source := ['<', 'a', '\n', 'b', '>', '<', '/', 'a', '\n', 'b', '>']
    let doc : Document :=
      ⟨Tags.Item.nodes .baseline source ⟨0, 1⟩ [.element ['a', '\n', 'b'] []], true⟩
    let spread : Attribute := .block
      { token := ⟨⟨1⟩, ['x'], 0, 1, 1, 1, 1, 2⟩, potentialName := some ['a', '\t', 'b'] }
    (Dialect.markup.parse source {}).1 = .ok doc ∧
      tree doc.nodes = ["[1:1]>[2:3](0,5)a\nb: <a⏎b>".toList,
        "[2:3]>[3:3](5,11)a\nb: </a⏎b>".toList] ∧
      ¬(∀ l ∈ tree doc.nodes, Unbroken l) ∧
      readLines (joined (tree doc.nodes)) ≠ tree doc.nodes ∧
      record spread = ["[1:1]>[1:2](0,1)a\tb: x".toList, "  potentialName: a→b".toList] ∧
      ¬(∀ l ∈ record spread, Unbroken l) := by
  intro source doc spread
  have hread : (Dialect.markup.parse source {}).1 = .ok doc :=
    (Dialect.parse_eq_ok_iff (by decide)).mpr
      ⟨by decide, [.element ['a', '\n', 'b'] []], by decide, rfl, rfl⟩
  have htree : tree doc.nodes = ["[1:1]>[2:3](0,5)a\nb: <a⏎b>".toList,
      "[2:3]>[3:3](5,11)a\nb: </a⏎b>".toList] := by
    rw [tree, flatten_eq_preorderAll]
    decide
  have hrecord : record spread
      = ["[1:1]>[1:2](0,1)a\tb: x".toList, "  potentialName: a→b".toList] := by decide
  refine ⟨hread, htree, ?_, ?_, hrecord, ?_⟩
  · rw [htree]
    exact fun h => (h _ List.mem_cons_self).1 (by decide)
  · rw [htree]
    decide
  · rw [hrecord]
    exact fun h => (h _ List.mem_cons_self).2 (by decide)

end Dump

end MarkupTree
