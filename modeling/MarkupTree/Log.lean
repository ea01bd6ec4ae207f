import MarkupTree.Conformance.Check

/-!
# Log lines

What a walk and a check write to the log. A line has a level and a message, and beside them values
with names.

* `checkLog_eq` — the log of a check is that of its walk, and then what the check says itself
-/

namespace MarkupTree

/-- How much a log line matters. -/
inductive LogLevel where
  | trace
  | debug
deriving DecidableEq, Repr

/-- The name of a level in a log. -/
def LogLevel.name : LogLevel → String
  | trace => "TRACE"
  | debug => "DEBUG"

/-- A value beside a message. -/
inductive LogValue where
  | text (chars : List Char)
  | number (n : Nat)
deriving DecidableEq, Repr

/-- A line of a log. -/
structure LogLine where
  level : LogLevel
  message : String
  fields : List (String × LogValue)
deriving DecidableEq, Repr

/-- The line that an event of a walk is logged as. -/
def WalkEvent.logLine : WalkEvent → LogLine
  | descending name children =>
    ⟨.trace, "descending", [("node_name", .text name), ("children", .number children)]⟩
  | depthReached name depth =>
    ⟨.debug, "max depth reached, skipping children",
      [("node_name", .text name), ("depth", .number depth.toNat)]⟩

/-- The line that an event of a check is logged as. -/
def CheckEvent.logLine : CheckEvent → LogLine
  | walked event => event.logLine
  | failed v name =>
    ⟨.debug, "tree failed conformance check",
      [("err", .text v.message.toList), ("node_name", .text name)]⟩

/-- The log of a walk. -/
def walkLog {σ : Type} (config : WalkConfig) (visit : σ → Node → UInt64 → σ × Reply)
    (nodes : List Node) (state : σ) : List LogLine :=
  (walk config visit nodes state).events.map WalkEvent.logLine

/-- The log of a check. -/
def checkLog (rules : PositionRules) (source : List Char) (nodes : List Node) : List LogLine :=
  (checkEvents rules source nodes).map CheckEvent.logLine

theorem checkLog_eq (rules : PositionRules) (source : List Char) (nodes : List Node) :
    checkLog rules source nodes
      = walkLog {} (CheckState.visit rules source) nodes (.seen [])
        ++ (checkWalk rules source nodes).state.events.map CheckEvent.logLine := by
  rw [checkLog, checkEvents, List.map_append, List.map_map]
  rfl

end MarkupTree
