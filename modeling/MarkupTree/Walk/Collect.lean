import MarkupTree.Walk

/-!
# What a walk gathers

* `Halt` — conditions on which a visitor stops
* `visitsUntil` — the visits up to the first that meets a condition
* `Tally` — how many visits a walk makes, how deep it goes and where it ends
-/

namespace MarkupTree

/-- Conditions on which a visitor stops; one that is `none` is never met. -/
structure Halt where
  name : Option (List Char) := none
  raw : Option (List Char) := none
  kind : Option (List Char) := none
  depth : Option UInt64 := none
  /-- The number of visits after which the visitor stops. -/
  after : Option Nat := none
deriving DecidableEq, Repr

/-- Whether the visit of `n` at `depth`, the `count`-th one, meets one of the conditions. -/
def Halt.holds (h : Halt) (n : Node) (depth : UInt64) (count : Nat) : Bool :=
  h.name == some n.name || h.raw == some n.raw || h.kind == some n.kind.tag
    || h.depth == some depth || h.after.any (· ≤ count)

/-- A visitor that keeps the visits, latest first, with their number, and stops on a condition. -/
def Halt.visit (h : Halt) (seen : List (Node × UInt64) × Nat) (n : Node) (depth : UInt64) :
    (List (Node × UInt64) × Nat) × Reply :=
  (((n, depth) :: seen.1, seen.2 + 1),
    if h.holds n depth (seen.2 + 1) then .halt else .proceed)

/-- The visits of a walk in order, up to the first on which the visitor stops. -/
def visitsUntil (config : WalkConfig) (h : Halt) (nodes : List Node) :
    Walked (List (Node × UInt64)) :=
  let walked := walk config h.visit nodes ([], 0)
  { state := walked.state.1.reverse, events := walked.events, reply := walked.reply }

/-- A summary of a walk. -/
structure Tally where
  count : Nat := 0
  deepest : UInt64 := 0
  last : Option (Node × UInt64) := none

/-- The summary with one more visit. -/
def Tally.add (t : Tally) (n : Node) (depth : UInt64) : Tally :=
  { count := t.count + 1, deepest := max t.deepest depth, last := some (n, depth) }

/-- The summary of a walk. -/
def tally (config : WalkConfig) (nodes : List Node) : Tally := walkAll config Tally.add nodes {}

end MarkupTree
