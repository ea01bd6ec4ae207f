import MarkupTree.Json.Tree

/-!
# Reading small values

A position, the options of a walk and a kind are read back from JSON. A record is an object, in
which unknown fields are passed over, or the array of its fields in order. A number is read only
where it is written as an integer that fits.

* `Position.ofJson?_toJson`, `WalkConfig.ofJson?_toJson`, `NodeKind.ofJson?_toJson` — what is
  written is read back
-/

namespace MarkupTree

namespace Json

/-- An integer below `limit` that is not negative. -/
def natBelow? (limit : Nat) : Json → Option Nat
  | int n => if 0 ≤ n ∧ n < limit then some n.toNat else none
  | _ => none

/-- A 32-bit number. -/
def word? (v : Json) : Option UInt32 := (v.natBelow? UInt32.size).map UInt32.ofNat

/-- A 64-bit number. -/
def depth? (v : Json) : Option UInt64 := (v.natBelow? UInt64.size).map UInt64.ofNat

/-- The value of a field. -/
def field? (key : String) (fields : List (String × Json)) : Option Json :=
  (fields.find? fun f => f.1 == key).map Prod.snd

end Json

/-- The kind that a tag names. -/
def NodeKind.ofJson? : Json → Option NodeKind
  | .string s => ofTag? s
  | _ => none

/-- A position, with both of its fields. -/
def Position.ofJson? : Json → Option Position
  | .object fields => do
    let line ← (Json.field? "line" fields).bind Json.word?
    let col ← (Json.field? "col" fields).bind Json.word?
    return ⟨line, col⟩
  | .array [line, col] => do return ⟨← line.word?, ← col.word?⟩
  | _ => none

/-- A depth that may be `null`. -/
def Json.optionalDepth? : Json → Option (Option UInt64)
  | .null => some none
  | v => v.depth?.map some

/-- The options of a walk from the values of its fields; a field that is left out has its usual
value. -/
def WalkConfig.ofFields? (maxDepth startDepth : Option Json) : Option WalkConfig := do
  let maxDepth ← maxDepth.elim (some none) Json.optionalDepth?
  let startDepth ← startDepth.elim (some 0) Json.depth?
  return { maxDepth, startDepth }

/-- The options of a walk. -/
def WalkConfig.ofJson? : Json → Option WalkConfig
  | .object fields => ofFields? (Json.field? "maxDepth" fields) (Json.field? "startDepth" fields)
  | .array [] => ofFields? none none
  | .array [maxDepth] => ofFields? (some maxDepth) none
  | .array [maxDepth, startDepth] => ofFields? (some maxDepth) (some startDepth)
  | _ => none

/-! ## Reading what is written -/

theorem Json.word?_word (n : UInt32) : (Json.word n).word? = some n := by
  have h : (0 : Int) ≤ n.toNat ∧ (n.toNat : Int) < UInt32.size :=
    ⟨Int.natCast_nonneg _, Int.ofNat_lt.mpr n.toNat_lt_size⟩
  rw [Json.word, Json.nat, Json.word?, Json.natBelow?, if_pos h]
  simp

theorem Json.depth?_depth (n : UInt64) : (Json.depth n).depth? = some n := by
  have h : (0 : Int) ≤ n.toNat ∧ (n.toNat : Int) < UInt64.size :=
    ⟨Int.natCast_nonneg _, Int.ofNat_lt.mpr n.toNat_lt_size⟩
  rw [Json.depth, Json.nat, Json.depth?, Json.natBelow?, if_pos h]
  simp

theorem Position.ofJson?_toJson (p : Position) : ofJson? p.toJson = some p := by
  have hline : Json.field? "line" [("line", Json.word p.line), ("col", Json.word p.col)]
      = some (Json.word p.line) := by simp [Json.field?]
  have hcol : Json.field? "col" [("line", Json.word p.line), ("col", Json.word p.col)]
      = some (Json.word p.col) := by simp [Json.field?]
  rw [toJson, ofJson?, hline, hcol, Option.bind_some, Option.bind_some, Json.word?_word,
    Json.word?_word]
  rfl

theorem WalkConfig.ofJson?_toJson (config : WalkConfig) : ofJson? config.toJson = some config := by
  obtain ⟨bound, start⟩ := config
  have hbound : Json.field? "maxDepth" [("maxDepth", Json.option Json.depth bound),
      ("startDepth", Json.depth start)] = some (Json.option Json.depth bound) := by
    simp [Json.field?]
  have hstart : Json.field? "startDepth" [("maxDepth", Json.option Json.depth bound),
      ("startDepth", Json.depth start)] = some (Json.depth start) := by simp [Json.field?]
  have hread : Json.optionalDepth? (Json.option Json.depth bound) = some bound := by
    cases bound with
    | none => rfl
    | some n =>
      show (Json.depth n).depth?.map some = some (some n)
      rw [Json.depth?_depth, Option.map_some]
  rw [toJson, ofJson?, hbound, hstart, ofFields?, Option.elim_some, Option.elim_some, hread,
    Json.depth?_depth]
  rfl

theorem NodeKind.ofJson?_toJson (k : NodeKind) : ofJson? k.toJson = some k :=
  ofTag?_eq_some_iff.mpr rfl

end MarkupTree
