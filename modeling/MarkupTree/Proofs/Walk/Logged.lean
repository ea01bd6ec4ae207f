import MarkupTree.Log
import MarkupTree.Proofs.Conformance.Messages
import MarkupTree.Proofs.Conformance.Report
import MarkupTree.Proofs.Walk.Calls

/-!
# What is logged

A log line is written behind a visit, when the visitor goes on from a node that has children: either
the walk descends to these, or they lie below the greatest depth and are left out. Nothing is logged
behind a pear, a node without children, or a visit that stops the walk. So the log can be read off
the row of visits, in which pears are told from nodes that are entered, and off the answers of the
visitor. A check logs the nodes that pass, and then its violation.

* `itineraryAll_visited` — the row of visits, with the pears marked, is the order of the walk
* `walk_eq_walkAlong` — a walk runs along its row, and logs on the way
* `exists_follows_logged`, `checkLogged_itineraryAll` — the log of any visitor, and that of a check
* `log_mirrors_walk` — both for all forests
-/

namespace MarkupTree

/-! ## The row of a walk -/

/-- The node that a step visits. -/
def Step.node : Step → Node
  | enter n _ => n
  | pear n _ => n

/-- The depth at which a step visits it. -/
def Step.depth : Step → UInt64
  | enter _ depth => depth
  | pear _ depth => depth

/-- The visit of a step. -/
def Step.visited (s : Step) : Node × UInt64 := (s.node, s.depth)

mutual

/-- The visits in the tree of a node at a level. -/
def Node.itinerary (config : WalkConfig) (depth : UInt64) : Node → List Step
  | n@⟨_, _, _, _, children, pear, _⟩ =>
    .enter n depth ::
      (if n.isEntered then
        (if config.admits (depth + 1) then itineraryAll config (depth + 1) children else [])
          ++ pear.toList.map (Step.pear · depth)
      else [])

/-- The visits in a forest at a level: nodes that are entered, and pears. -/
def Node.itineraryAll (config : WalkConfig) (depth : UInt64) : List Node → List Step
  | [] => []
  | n :: ns => n.itinerary config depth ++ itineraryAll config depth ns

end

/-- The visits that a step leads to. -/
def Step.itinerary (config : WalkConfig) : Step → List Step
  | enter n depth => n.itinerary config depth
  | pear n depth => [.pear n depth]

mutual

theorem itinerary_visited (config : WalkConfig) (depth : UInt64) : ∀ n : Node,
    (n.itinerary config depth).map Step.visited = n.preorder config depth
  | ⟨kind, token, name, isGhost, children, pear, attributes⟩ => by
    have hbelow := itineraryAll_visited config (depth + 1) children
    rw [Node.itinerary, Node.preorder, List.map_cons]
    congr 1
    split
    · rw [List.map_append, ← hbelow, List.map_map]
      congr 1
      split <;> rfl
    · rfl

/-- Without the marks the row is the order of the walk. -/
theorem itineraryAll_visited (config : WalkConfig) (depth : UInt64) : ∀ ns : List Node,
    (Node.itineraryAll config depth ns).map Step.visited = Node.preorderAll config depth ns
  | [] => rfl
  | n :: ns => by
    rw [Node.itineraryAll, Node.preorderAll, List.map_append, itinerary_visited config depth n,
      itineraryAll_visited config depth ns]

end

theorem itinerary_map_enter (config : WalkConfig) (depth : UInt64) : ∀ ns : List Node,
    (ns.map (Step.enter · depth)).flatMap (Step.itinerary config)
      = Node.itineraryAll config depth ns
  | [] => rfl
  | n :: ns => by
    rw [List.map_cons, List.flatMap_cons, itinerary_map_enter config depth ns, Step.itinerary,
      Node.itineraryAll]

/-- A node comes first, and then what the steps behind it lead to. -/
theorem itinerary_eq_cons (config : WalkConfig) (n : Node) (depth : UInt64) :
    n.itinerary config depth
      = .enter n depth :: (n.steps config depth).flatMap (Step.itinerary config) := by
  obtain ⟨kind, token, name, isGhost, children, pear, attributes⟩ := n
  rw [Node.itinerary, Node.steps]
  split
  · rw [List.flatMap_append]
    congr 2
    · split
      · rw [itinerary_map_enter]
      · rfl
    · cases pear <;> rfl
  · rfl

/-! ## Running along a row -/

/-- What is reported behind a visit that the visitor goes on from. -/
def Step.event? (config : WalkConfig) : Step → Option WalkEvent
  | enter n depth => n.event? config depth
  | pear _ _ => none

section

variable {σ : Type} (config : WalkConfig) (visit : σ → Node → UInt64 → σ × Reply)

/-- Makes the visits of a row in order, until the visitor stops. -/
def walkAlong : List Step → σ → Walked σ
  | [], state => ⟨state, [], .proceed⟩
  | s :: row, state =>
    match visit state s.node s.depth with
    | (state, .halt) => ⟨state, [], .halt⟩
    | (state, .proceed) =>
      let rest := walkAlong row state
      { rest with events := (s.event? config).toList ++ rest.events }

theorem walkSteps_eq_walkAlong (steps : List Step) (state : σ) (events : List WalkEvent) :
    walkSteps config visit steps state events
      = { walkAlong config visit (steps.flatMap (Step.itinerary config)) state with
          events := events.reverse
            ++ (walkAlong config visit (steps.flatMap (Step.itinerary config)) state).events } := by
  fun_induction walkSteps config visit steps state events with
  | case1 state events => rw [List.flatMap_nil, walkAlong, List.append_nil]
  | case2 n depth rest state events next hvisit =>
    rw [List.flatMap_cons, Step.itinerary, List.singleton_append, walkAlong, Step.node, Step.depth,
      hvisit, List.append_nil]
  | case3 n depth rest state events next hvisit ih =>
    rw [List.flatMap_cons, Step.itinerary, List.singleton_append, walkAlong, Step.node, Step.depth,
      hvisit, ih]
    rfl
  | case4 n depth rest state events next hvisit =>
    rw [List.flatMap_cons, Step.itinerary, itinerary_eq_cons, List.cons_append, walkAlong,
      Step.node, Step.depth, hvisit, List.append_nil]
  | case5 n depth rest state events next hvisit ih =>
    rw [List.flatMap_cons, Step.itinerary, itinerary_eq_cons, List.cons_append, walkAlong,
      Step.node, Step.depth, hvisit, ih, List.flatMap_append, List.reverse_append,
      List.append_assoc]
    dsimp only
    rw [Step.event?]
    cases n.event? config depth <;> rfl

/-- A walk runs along the row of its visits. -/
theorem walk_eq_walkAlong (nodes : List Node) (state : σ) :
    walk config visit nodes state
      = walkAlong config visit (Node.itineraryAll config config.startDepth nodes) state := by
  rw [walk, walkSteps_eq_walkAlong, itinerary_map_enter]
  rfl

end

/-! ## Log lines -/

/-- The line that is logged behind a visit that the visitor goes on from, if there is one. -/
def Step.logLine? (config : WalkConfig) : Step → Option LogLine
  | pear _ _ => none
  | enter n depth =>
    if n.kind.carriesChildren ∧ n.kind ≠ .endTag ∧ n.children ≠ [] then
      if ∃ bound ∈ config.maxDepth, bound.toNat < depth.toNat + 1 then
        some ⟨.debug, "max depth reached, skipping children",
          [("node_name", .text n.name), ("depth", .number depth.toNat)]⟩
      else
        some ⟨.trace, "descending",
          [("node_name", .text n.name), ("children", .number n.children.length)]⟩
    else none

/-- The line behind a call of the visitor at a step: none if the visitor stops there. -/
def loggedAt (config : WalkConfig) (p : Step × Call) : Option LogLine :=
  match p.2.reply with
  | .proceed => p.1.logLine? config
  | .halt => none

theorem WalkConfig.admits_iff {config : WalkConfig} {depth : UInt64} :
    config.admits depth = true ↔ ¬∃ bound ∈ config.maxDepth, bound < depth := by
  unfold WalkConfig.admits
  cases config.maxDepth <;> simp

/-- What is reported is logged as the line of the step, unless there is a bound to compare with and
no next level. -/
theorem Step.map_logLine_event? {config : WalkConfig} (s : Step)
    (hnext : ∀ bound ∈ config.maxDepth, (s.logLine? config).isSome = true →
      s.depth.toNat + 1 < UInt64.size) :
    (s.event? config).map WalkEvent.logLine = s.logLine? config := by
  cases s with
  | pear n depth => rfl
  | enter n depth =>
    have hlogs : (n.isEntered && !n.children.isEmpty) = true ↔
        n.kind.carriesChildren = true ∧ n.kind ≠ .endTag ∧ n.children ≠ [] := by
      simp [Node.isEntered, NodeKind.isEndTag, and_assoc]
    rw [Step.event?, Node.event?]
    rw [Step.logLine?] at hnext ⊢
    rw [if_congr hlogs rfl rfl]
    split at hnext
    next hchildren =>
      have hbelow : (∃ bound ∈ config.maxDepth, bound < depth + 1) ↔
          ∃ bound ∈ config.maxDepth, bound.toNat < depth.toNat + 1 := by
        refine exists_congr fun bound => and_congr_right fun hbound => ?_
        have hfits : depth.toNat + 1 < UInt64.size := hnext bound hbound (by split <;> rfl)
        rw [UInt64.lt_iff_toNat_lt, UInt64.toNat_add, UInt64.toNat_one, Nat.mod_eq_of_lt hfits]
      rw [if_pos hchildren, if_pos hchildren, ← if_congr hbelow rfl rfl,
        ← ite_not (∃ bound ∈ config.maxDepth, _), ← if_congr WalkConfig.admits_iff rfl rfl,
        Option.map_some]
      split <;> rfl
    next hchildren => rw [if_neg hchildren, if_neg hchildren, Option.map_none]

/-- Without a greatest depth, all that is logged is that the walk descends. -/
theorem Step.level_of_logLine? {line : LogLine} (s : Step) (h : s.logLine? {} = some line) :
    line.level = .trace := by
  cases s with
  | pear n depth => cases h
  | enter n depth =>
    have hbound : ¬∃ bound ∈ ({} : WalkConfig).maxDepth, bound.toNat < depth.toNat + 1 := nofun
    rw [logLine?, if_neg hbound] at h
    split at h
    · rw [← Option.some.inj h]
    · cases h

/-- No line is logged behind a visit of the last level there is. -/
def NextLevelsFit (config : WalkConfig) (made : List (Step × Call)) : Prop :=
  ∀ p ∈ made, (loggedAt config p).isSome = true → p.1.depth.toNat + 1 < UInt64.size

section

variable {σ : Type} (config : WalkConfig) (visit : σ → Node → UInt64 → σ × Reply)

/-- A visitor that runs along a row follows the visits of the row, and the log has the lines behind
its calls. -/
theorem exists_follows_logged : ∀ (row : List Step) (state : σ), ∃ calls,
    Follows visit (row.map Step.visited) state calls (walkAlong config visit row state).state
        (walkAlong config visit row state).reply
      ∧ (NextLevelsFit config (row.zip calls) →
        (walkAlong config visit row state).events.map WalkEvent.logLine
          = (row.zip calls).filterMap (loggedAt config))
  | [], state => ⟨[], .nil state, fun _ => rfl⟩
  | s :: row, state => by
    rw [walkAlong, List.map_cons]
    rcases hvisit : visit state s.node s.depth with ⟨next, reply⟩
    cases reply with
    | halt => exact ⟨[⟨s.node, s.depth, .halt⟩], .halt hvisit, by simp [loggedAt]⟩
    | proceed =>
      obtain ⟨calls, hfollows, hlog⟩ := exists_follows_logged row next
      refine ⟨⟨s.node, s.depth, .proceed⟩ :: calls, .proceed hvisit hfollows, fun hfits => ?_⟩
      rw [List.zip_cons_cons, NextLevelsFit, List.forall_mem_cons] at hfits
      dsimp only
      rw [List.map_append, hlog hfits.2, List.zip_cons_cons, List.filterMap_cons, loggedAt,
        ← s.map_logLine_event? fun _ _ => hfits.1]
      cases s.event? config <;> rfl

end

/-! ## The log of a check -/

section

variable (rules : PositionRules) (source : List Char)

/-- Checks the nodes of a row one after the other, with the identities seen so far. -/
def checkAlong (seen : List TokenId) (row : List Step) : Checked (List TokenId) :=
  row.foldlM (fun ids s => s.node.check rules source ids) seen

/-- How a check along a row ends, and what it logs. -/
inductive CheckLogged (row : List Step) : Checked Unit → List LogLine → Prop
  /-- All nodes pass, and the log is that of the walk. -/
  | passed {ids : List TokenId} (pass : checkAlong rules source [] row = .ok ids) :
    CheckLogged row (.ok ()) (row.filterMap (Step.logLine? {}))
  /-- The nodes in front of one pass, and that one does not. The last line has the text of its
  violation, which is the message of no other. -/
  | failed {lead behind : List Step} {s : Step} {ids : List TokenId} {v : Violation}
      (split : row = lead ++ s :: behind) (pass : checkAlong rules source [] lead = .ok ids)
      (fails : s.node.check rules source ids = .error (.error v))
      (told : ∀ w : Violation, w.message.toList = v.text ↔ w = v) :
    CheckLogged row (.error (.error v))
      (lead.filterMap (Step.logLine? {}) ++
        [⟨.debug, "tree failed conformance check",
          [("err", .text v.text), ("node_name", .text s.node.name)]⟩])

/-- The visitor of a check goes along a row as far as the nodes pass. -/
theorem walkAlong_visit : ∀ (row : List Step) (seen : List TokenId),
    (∃ ids, checkAlong rules source seen row = .ok ids ∧
      (walkAlong {} (CheckState.visit rules source) row (.seen seen)).state = .seen ids ∧
      (walkAlong {} (CheckState.visit rules source) row (.seen seen)).events.map
        WalkEvent.logLine = row.filterMap (Step.logLine? {})) ∨
    ∃ lead s behind ids failure, row = lead ++ s :: behind ∧
      checkAlong rules source seen lead = .ok ids ∧
      s.node.check rules source ids = .error failure ∧
      (walkAlong {} (CheckState.visit rules source) row (.seen seen)).state
        = .failed failure s.node.name ∧
      (walkAlong {} (CheckState.visit rules source) row (.seen seen)).events.map
        WalkEvent.logLine = lead.filterMap (Step.logLine? {})
  | [], seen => Or.inl ⟨seen, rfl, rfl, rfl⟩
  | s :: row, seen => by
    rw [walkAlong, CheckState.visit]
    cases hcheck : s.node.check rules source seen with
    | error failure => exact Or.inr ⟨[], s, row, seen, failure, rfl, rfl, hcheck, rfl, rfl⟩
    | ok next =>
      have hlog (lead : List Step) : (s.event? {}).toList.map WalkEvent.logLine
          ++ lead.filterMap (Step.logLine? {})
          = (s :: lead).filterMap (Step.logLine? {}) := by
        rw [List.filterMap_cons, ← s.map_logLine_event? fun d h => absurd h (Option.not_mem_none d)]
        cases s.event? {} <;> rfl
      have hstep (lead : List Step) : checkAlong rules source seen (s :: lead)
          = checkAlong rules source next lead := by
        rw [checkAlong, List.foldlM_cons, hcheck]
        rfl
      rcases walkAlong_visit row next with
        ⟨ids, hpass, hstate, hevents⟩ | ⟨lead, t, behind, ids, failure, rfl, hpass, hfails, hstate,
          hevents⟩
      · exact Or.inl ⟨ids, by rw [hstep, hpass], hstate, by rw [List.map_append, hevents, hlog]⟩
      · exact Or.inr ⟨s :: lead, t, behind, ids, failure, rfl, by rw [hstep, hpass], hfails, hstate,
          by rw [List.map_append, hevents, hlog]⟩

/-- A check logs along the row of its forest. -/
theorem checkLogged_itineraryAll (nodes : List Node) :
    CheckLogged rules source (Node.itineraryAll {} 0 nodes) (checkNodes rules source nodes)
      (checkLog rules source nodes) := by
  have hviolation : checkNodes rules source nodes ≠ .ok () →
      ∃ v, checkNodes rules source nodes = .error (.error v) := exists_violation_of_ne
  rw [checkLog_eq, walkLog]
  rw [checkNodes, checkWalk, walk_eq_walkAlong] at hviolation ⊢
  rcases walkAlong_visit rules source (Node.itineraryAll {} 0 nodes) [] with
    ⟨ids, hpass, hstate, hlog⟩ | ⟨lead, s, behind, ids, failure, hsplit, hpass, hfails, hstate,
      hlog⟩
  · rw [hstate, hlog, CheckState.events, List.map_nil, List.append_nil]
    exact .passed hpass
  · rw [hstate] at hviolation
    obtain ⟨v, hv⟩ := hviolation (by simp [CheckState.result])
    rw [CheckState.result, Except.error.injEq] at hv
    have htext (w : Violation) : w.message.toList = v.text ↔ w = v := by
      rw [← v.toList_message, String.toList_inj, Violation.message_injective.eq_iff]
    rw [hstate, hlog, hv, CheckState.events, List.map_singleton, CheckEvent.logLine,
      v.toList_message]
    exact .failed hsplit hpass (hv ▸ hfails) htext

end

/-! ## All of it -/

/-- The log of a walk mirrors the calls of its visitor. The visits stand in a row, in which nodes
that are entered are told from pears; behind each call at which the visitor goes on, the line of the
step is logged, and nothing else is, if there is a next level wherever a line is logged. The log of
a check has the lines of the nodes that pass, which all say that the walk descends, and then one
line with the text of the violation, if there is one. -/
theorem log_mirrors_walk :
    (∀ (σ : Type) (config : WalkConfig) (visit : σ → Node → UInt64 → σ × Reply) (nodes : List Node)
        (state : σ),
      let row := Node.itineraryAll config config.startDepth nodes
      row.map Step.visited = Node.preorderAll config config.startDepth nodes ∧
        ∃ calls, Follows visit (row.map Step.visited) state calls
            (walk config visit nodes state).state (walk config visit nodes state).reply ∧
          (NextLevelsFit config (row.zip calls) →
            walkLog config visit nodes state = (row.zip calls).filterMap (loggedAt config))) ∧
    ∀ (rules : PositionRules) (source : List Char) (nodes : List Node),
      let row := Node.itineraryAll {} 0 nodes
      CheckLogged rules source row (checkNodes rules source nodes) (checkLog rules source nodes) ∧
        ∀ line ∈ row.filterMap (Step.logLine? {}), line.level = .trace := by
  refine ⟨fun σ config visit nodes state => ⟨itineraryAll_visited config _ nodes, ?_⟩,
    fun rules source nodes => ⟨checkLogged_itineraryAll rules source nodes, fun line hline => ?_⟩⟩
  · rw [walkLog, walk_eq_walkAlong]
    exact exists_follows_logged config visit _ state
  · obtain ⟨s, -, hs⟩ := List.mem_filterMap.mp hline
    exact s.level_of_logLine? hs

/-- An element in another one, in a walk that leaves out what is below level one, and in a check
that fails in the text of the inner one. -/
theorem log_mirrors_walk_nested :
    let text := Node.leaf .text ⟨⟨3⟩, ['x'], 6, 8, 1, 1, 7, 9⟩
    let inner := Node.parent .startTag ⟨⟨2⟩, ['<', 'b', '>'], 3, 6, 1, 1, 4, 7⟩ ['b'] [text]
    let outer := Node.parent .startTag ⟨⟨1⟩, ['<', 'a', '>'], 0, 3, 1, 1, 1, 4⟩ ['a'] [inner]
    let config : WalkConfig := { maxDepth := some 1 }
    let visit (n : Nat) (_ : Node) (_ : UInt64) : Nat × Reply := (n + 1, .proceed)
    let row := Node.itineraryAll config 0 [outer]
    let descending : LogLine :=
      ⟨.trace, "descending", [("node_name", .text ['a']), ("children", .number 1)]⟩
    (∃ calls, Follows visit (row.map Step.visited) 0 calls (walk config visit [outer] 0).state
        (walk config visit [outer] 0).reply ∧
      NextLevelsFit config (row.zip calls) ∧
      walkLog config visit [outer] 0 = (row.zip calls).filterMap (loggedAt config)) ∧
    walkLog config visit [outer] 0 = [descending,
      ⟨.debug, "max depth reached, skipping children",
        [("node_name", .text ['b']), ("depth", .number 1)]⟩] ∧
    CheckLogged .baseline ['<', 'a', '>', '<', 'b', '>', 'x'] (Node.itineraryAll {} 0 [outer])
      (checkNodes .baseline ['<', 'a', '>', '<', 'b', '>', 'x'] [outer])
      (checkLog .baseline ['<', 'a', '>', '<', 'b', '>', 'x'] [outer]) ∧
    checkLog .baseline ['<', 'a', '>', '<', 'b', '>', 'x'] [outer] = [descending,
      ⟨.trace, "descending", [("node_name", .text ['b']), ("children", .number 1)]⟩,
      ⟨.debug, "tree failed conformance check",
        [("err", .text "token tok-3 spans 6..8 but its raw text is 1 units long".toList),
          ("node_name", .text "#text".toList)]⟩] := by
  intro text inner outer config visit row descending
  obtain ⟨-, calls, hfollows, hlog⟩ := log_mirrors_walk.1 Nat config visit [outer] 0
  have hshallow : ∀ s ∈ row, s.depth.toNat + 1 < UInt64.size := by decide
  have hfits : NextLevelsFit config (row.zip calls) := fun p hp _ =>
    hshallow p.1 (List.of_mem_zip hp).1
  refine ⟨⟨calls, hfollows, hfits, hlog hfits⟩, ?_, (log_mirrors_walk.2 _ _ _).1, ?_⟩
  · rw [walkLog, walk_eq_walkAlong]
    rfl
  · rw [checkLog_eq, walkLog, checkWalk, walk_eq_walkAlong]
    decide +kernel

/-- On the last level there is, the children of an element are beyond any bound, and still the walk
descends. -/
theorem log_mirrors_walk_overflow :
    let token (n : UInt64) : Token := ⟨⟨n⟩, [], 0, 0, 1, 1, 1, 1⟩
    let element := Node.parent .startTag (token 1) ['a'] [Node.leaf .text (token 2)]
    let config : WalkConfig :=
      { maxDepth := some 18446744073709551615, startDepth := 18446744073709551615 }
    let visit (n : Nat) (_ : Node) (_ : UInt64) : Nat × Reply := (n + 1, .proceed)
    let row := Node.itineraryAll config config.startDepth [element]
    walkLog config visit [element] 0
        = [⟨.trace, "descending", [("node_name", .text ['a']), ("children", .number 1)]⟩] ∧
      ¬∃ calls, Follows visit (row.map Step.visited) 0 calls
          (walk config visit [element] 0).state (walk config visit [element] 0).reply ∧
        walkLog config visit [element] 0 = (row.zip calls).filterMap (loggedAt config) := by
  intro token element config visit row
  have hlog : walkLog config visit [element] 0
      = [⟨.trace, "descending", [("node_name", .text ['a']), ("children", .number 1)]⟩] := by
    rw [walkLog, walk_eq_walkAlong]
    decide +kernel
  refine ⟨hlog, ?_⟩
  rintro ⟨calls, -, h⟩
  -- for numbers the next level is beyond the bound, so no line of the row says that
  have hline : ∀ s ∈ row, ∀ line ∈ s.logLine? config, line.level = .debug := by decide
  rw [hlog] at h
  obtain ⟨p, hp, hlogged⟩ := List.mem_filterMap.mp (h ▸ List.mem_singleton_self _)
  rw [loggedAt] at hlogged
  split at hlogged
  · exact nomatch hline p.1 (List.of_mem_zip hp).1 _ hlogged
  · exact nomatch hlogged

end MarkupTree
