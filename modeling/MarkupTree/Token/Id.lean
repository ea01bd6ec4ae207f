import MarkupTree.Text.Quoted

/-!
# Token identities

Every token carries an identity of its own, a 64-bit number handed out by a `Counter`. What the
number is says nothing; only whether two are the same does.

* `take_fst`, `take_snd` — an identity is the counter's value, and the counter moves on by one
-/

namespace MarkupTree

/-- The identity of a token. -/
structure TokenId where
  value : UInt64
deriving DecidableEq, Repr

/-- The written form of an identity: `tok-` and the number in lower-case hexadecimal. -/
def TokenId.display (id : TokenId) : List Char :=
  ['t', 'o', 'k', '-'] ++ Text.hexDigits id.value.toNat

instance : Ord TokenId := ⟨fun a b => compare a.value b.value⟩

/-- How many different identities a list holds. -/
def TokenId.distinctCount (ids : List TokenId) : Nat :=
  (ids.map (·.value.toNat)).mergeSort.eraseReps.length

/-- The source of identities: the next number to hand out. -/
structure Counter where
  next : UInt64 := 1
deriving DecidableEq, Repr

namespace Counter

/-- Hands out one identity. -/
def take (c : Counter) : TokenId × Counter := (⟨c.next⟩, ⟨c.next + 1⟩)

@[simp] theorem take_fst (c : Counter) : c.take.1 = ⟨c.next⟩ := rfl

@[simp] theorem take_snd (c : Counter) : c.take.2 = ⟨c.next + 1⟩ := rfl

/-- Hands out `n` identities in a row, put in front of those in `taken`, the latest first. -/
def takeMany : Nat → List TokenId → Counter → List TokenId × Counter
  | 0, taken, c => (taken, c)
  | n + 1, taken, c => takeMany n (c.take.1 :: taken) c.take.2

end Counter

end MarkupTree
