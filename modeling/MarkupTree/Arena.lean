/-!
# Arenas

An arena keeps the texts of one document and lets them go together. A text in it is referred to by
a handle, which is good until the next reset.

* `get?_store` — a stored text is read back
* `get?_store_of_get?_eq_some` — storing another text leaves it in place
-/

namespace MarkupTree

/-- A text in an arena. -/
structure Handle where
  index : Nat
deriving DecidableEq, Repr

/-- The texts of one document. -/
structure Arena where
  texts : Array (List Char) := #[]

namespace Arena

/-- Stores a text. -/
def store (a : Arena) (s : List Char) : Handle × Arena := (⟨a.texts.size⟩, ⟨a.texts.push s⟩)

/-- The text of a handle. -/
def get? (a : Arena) (h : Handle) : Option (List Char) := a.texts[h.index]?

/-- The arena without its texts. -/
def reset (_ : Arena) : Arena := {}

theorem get?_store (a : Arena) (s : List Char) : (a.store s).2.get? (a.store s).1 = some s := by
  simp [store, get?]

theorem get?_store_of_get?_eq_some {a : Arena} {h : Handle} {s t : List Char}
    (ht : a.get? h = some t) : (a.store s).2.get? h = some t := by
  obtain ⟨hlt, _⟩ := Array.getElem?_eq_some_iff.mp ht
  rw [← ht]
  simp [store, get?, Array.getElem?_push_lt hlt, Array.getElem?_eq_getElem hlt]

/-- Stores the texts of a list in order. -/
def storeAll (a : Arena) : List (List Char) → List Handle × Arena
  | [] => ([], a)
  | s :: ss => ((a.store s).1 :: ((a.store s).2.storeAll ss).1, ((a.store s).2.storeAll ss).2)

/-- Keeps each document of a list in turn and reads it back. -/
def readBack (a : Arena) : List (List (List Char)) → List (List (List Char))
  | [] => []
  | texts :: documents =>
    let stored := a.storeAll texts
    stored.1.filterMap stored.2.get? :: stored.2.reset.readBack documents

end Arena

end MarkupTree
