import MarkupTree.Conformance.Violation
import MarkupTree.Proofs.Dump.Line
import MarkupTree.Proofs.Text.Quotation

/-!
# What messages tell

The message of a violation names all that the violation has. Behind an identity, a number or a
position stands a sign that none of these holds, and a quoted text is closed by its quote, so a
message about a token is read from the left. The name of an owner may hold anything, but what stands
behind it has no further blanks and is read from the right.

* `toList_message` — the message, character by character
* `message_injective` — different violations have different messages
-/

namespace MarkupTree

open Text

theorem toList_toString (n : UInt32) : (toString n).toList = decimal n := String.toList_ofList

theorem NodeKind.tag_injective : Function.Injective tag := fun _ _ h =>
  Option.some.inj ((ofTag?_eq_some_iff.mpr h).symm.trans (ofTag?_eq_some_iff.mpr rfl))

theorem NodeKind.blank_not_mem_tag (k : NodeKind) : ' ' ∉ k.tag := by
  cases k <;> decide

theorem blank_not_mem_decimal (n : UInt32) : ' ' ∉ decimal n := fun h =>
  absurd (isDigit_of_mem_decimal h) (by decide)

namespace Violation

/-- The characters of a message. What ends an identity, a number or a position is set off. -/
def text : Violation → List Char
  | pearNotEndTag owner offset kind =>
    "pear node of <".toList ++ (((owner ++ "> at".toList ++ ' ' :: decimal offset)
      ++ " is a".toList ++ ' ' :: kind.tag) ++ ", expected an end tag".toList)
  | duplicateToken id offset =>
    "token ".toList ++ (id.display ++ ' ' ::
      ("at ".toList ++ (decimal offset ++ ' ' :: "appears more than once in the tree".toList)))
  | offsetLength id start stop len =>
    "token ".toList ++ (id.display ++ ' ' :: ("spans ".toList ++ (decimal start ++ '.' :: '.' ::
      (decimal stop ++ ' ' ::
        ("but its raw text is ".toList ++ (decimal len ++ ' ' :: "units long".toList))))))
  | rawMismatch id start stop raw expected =>
    "token ".toList ++ (id.display ++ ' ' :: ("at ".toList ++ (decimal start ++ '.' :: '.' ::
      (decimal stop ++ ' ' :: ("holds ".toList ++ (quoted raw ++
        (" but the source has ".toList ++ quoted expected)))))))
  | position id edge offset actual expected =>
    "token ".toList ++ (id.display ++ ' ' :: (edge.name.toList ++ (" position is ".toList ++
      (actual.display ++ ' ' :: ("but offset ".toList ++ (decimal offset ++ ' ' ::
        ("is at ".toList ++ expected.display)))))))

theorem toList_message (v : Violation) : v.message.toList = v.text := by
  have hself (s : String) : toString s = s := rfl
  unfold message text
  cases v <;>
    simp only [hself, String.toList_append, String.toList_ofList, toList_toString,
      List.append_assoc]
  all_goals rfl

/-- Behind the name of an owner, an offset and a kind are read from the right. -/
theorem eq_of_text_pearNotEndTag {owner owner' : List Char} {offset offset' : UInt32}
    {kind kind' : NodeKind}
    (h : (pearNotEndTag owner offset kind).text = (pearNotEndTag owner' offset' kind').text) :
    pearNotEndTag owner offset kind = pearNotEndTag owner' offset' kind' := by
  have hlead := List.append_cancel_right (List.append_cancel_left h)
  obtain ⟨hlead, hkind⟩ := (Dump.append_cons_inj_of_not_mem kind.blank_not_mem_tag
    kind'.blank_not_mem_tag).mp hlead
  obtain ⟨hlead, hoffset⟩ := (Dump.append_cons_inj_of_not_mem (blank_not_mem_decimal offset)
    (blank_not_mem_decimal offset')).mp (List.append_cancel_right hlead)
  rw [List.append_cancel_right hlead, decimal_injective hoffset, NodeKind.tag_injective hkind]

theorem text_injective : Function.Injective text := by
  have hblank : ' '.isAlphanum = false := by decide
  have hdot : '.'.isAlphanum = false := by decide
  intro v w h
  rcases v with ⟨owner, offset, kind⟩ | _ | _ | _ | ⟨_, _ | _, _⟩ <;>
    rcases w with ⟨owner', offset', kind'⟩ | _ | _ | _ | ⟨_, _ | _, _⟩
  case pearNotEndTag.pearNotEndTag => exact eq_of_text_pearNotEndTag h
  all_goals
    unfold text at h
    -- the words around the values tell the kinds of violations apart
    simp [Edge.name, TokenId.display_append_inj hblank hblank, decimal_append_inj hblank hblank,
      decimal_append_inj hdot hdot, decimal_append_inj hblank hdot, decimal_append_inj hdot hblank,
      quoted_append_inj, quoted_injective.eq_iff, Position.display_append_inj hblank hblank,
      Position.display_injective.eq_iff] at h
  all_goals simp [h]

/-- Different violations have different messages. -/
theorem message_injective : Function.Injective message := by
  intro v w h
  apply text_injective
  rw [← toList_message, ← toList_message, h]

end Violation

end MarkupTree
