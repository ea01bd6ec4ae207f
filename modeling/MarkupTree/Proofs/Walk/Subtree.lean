import MarkupTree.Proofs.Walk.Levels

/-!
# Walks of subtrees

A walk knows the level that it begins with and nothing of what is around its forest. So a walk that
begins further down makes the same visits further down, and what belongs to an entered node is
visited without a break: the node, what a walk of its children visits, and then its pear. Equal
trees may stand at many places of a forest, so the part of a walk that belongs to a node is said of
the place of the node.

* `preorderAll_add`, `map_toNat_visitsFrom` — the visits of a walk that begins further down
* `exists_placesFrom_eq_append` — the places that belong to an entered place stand in a row
* `exists_visitsFrom_eq_append` — and so do the visits that are made there
* `visitsFrom_subtree` — all of this for a walk from any level
-/

namespace MarkupTree

/-! ## Levels -/

mutual

theorem preorder_add {config far : WalkConfig} {k : UInt64}
    (hadmits : ∀ d, far.admits (d + k) = config.admits d) (depth : UInt64) : ∀ n : Node,
      n.preorder far (depth + k) = (n.preorder config depth).map fun v => (v.1, v.2 + k)
  | ⟨kind, token, name, isGhost, children, pear, attributes⟩ => by
    have hnext : depth + k + 1 = depth + 1 + k := by ac_rfl
    have hchildren := preorderAll_add hadmits (depth + 1) children
    rw [Node.preorder, Node.preorder, List.map_cons, hnext, hadmits (depth + 1)]
    congr 1
    split
    · rw [List.map_append, List.map_map]
      congr 1
      split
      · exact hchildren
      · rfl
    · rfl

/-- A walk that begins `k` levels further down, with a bound that is as much further down, makes the
same visits `k` levels further down. -/
theorem preorderAll_add {config far : WalkConfig} {k : UInt64}
    (hadmits : ∀ d, far.admits (d + k) = config.admits d) (depth : UInt64) : ∀ ns : List Node,
      Node.preorderAll far (depth + k) ns
        = (Node.preorderAll config depth ns).map fun v => (v.1, v.2 + k)
  | [] => rfl
  | n :: ns => by
    have hfirst := preorder_add hadmits depth n
    have hrest := preorderAll_add hadmits depth ns
    rw [Node.preorderAll, Node.preorderAll, List.map_append, hfirst, hrest]

end

theorem visitsFrom_eq_map_add (nodes : List Node) (depth : UInt64) :
    visitsFrom depth nodes = (visits {} nodes).map (fun v => (v.1, v.2 + depth)) := by
  have hall : ∀ d, ({ startDepth := depth } : WalkConfig).admits (d + depth)
      = ({} : WalkConfig).admits d := fun _ => rfl
  have hshift := preorderAll_add hall 0 nodes
  rw [UInt64.zero_add] at hshift
  rw [visitsFrom, visits_eq_preorderAll, visits_eq_preorderAll]
  exact hshift

/-- What a walk without a bound visits from a level on does not depend on the level that its options
name. -/
theorem preorderAll_eq_visitsFrom (config : WalkConfig) (hall : ∀ d, config.admits d = true)
    (depth : UInt64) (ns : List Node) :
    Node.preorderAll config depth ns = visitsFrom depth ns := by
  have hsame : Node.preorderAll config (depth + 0) ns
      = (Node.preorderAll { startDepth := depth } depth ns).map fun v => (v.1, v.2 + 0) :=
    preorderAll_add (fun d => hall (d + 0)) depth ns
  rw [visitsFrom, visits_eq_preorderAll]
  simpa using hsame

/-- The way to a node leads by a child. -/
theorem Place.length_path_pos {nodes : List Node} {p : Place} {n : Node}
    (hn : node? nodes p = some n) : 0 < p.path.length := by
  cases p with
  | nil => cases hn
  | cons t p =>
    cases t with
    | child i => exact Nat.succ_pos _
    | pear => cases hn

theorem Place.visit?_eq_map_add (nodes : List Node) (depth : UInt64) (p : Place) :
    visit? nodes depth p = (visit? nodes 0 p).map fun v => (v.1, v.2 + depth.toNat) := by
  cases hn : node? nodes p with
  | none => simp [visit?, hn]
  | some n =>
    have hpath := length_path_pos hn
    have hlevel : p.level depth = p.level 0 + depth.toNat := by
      rw [level, level, UInt64.toNat_zero]
      omega
    simp [visit?, hn, hlevel]

/-- The levels also fit from a higher level on. -/
theorem Place.LevelsFit.zero {nodes : List Node} {depth : UInt64} (h : LevelsFit nodes depth) :
    LevelsFit nodes 0 := by
  intro p hp
  have hlevel := h p hp
  rw [level] at hlevel ⊢
  rw [UInt64.toNat_zero]
  omega

/-- Where the levels fit, the depths are sums of numbers. -/
theorem map_toNat_visitsFrom {nodes : List Node} {depth : UInt64}
    (hfit : Place.LevelsFit nodes depth) :
    (visitsFrom depth nodes).map (Prod.map id UInt64.toNat)
      = (visits {} nodes).map fun v => (v.1, v.2.toNat + depth.toNat) := by
  have hsome : Function.Injective (List.map (some : Node × Nat → Option (Node × Nat))) :=
    List.map_injective_iff.mpr fun _ _ => Option.some.inj
  apply hsome
  calc ((visitsFrom depth nodes).map (Prod.map id UInt64.toNat)).map some
      = (Node.placesFrom 0 nodes).map (Place.visit? nodes depth) := by
        rw [map_visit?_placesFrom hfit, List.map_map]
    _ = ((Node.placesFrom 0 nodes).map (Place.visit? nodes 0)).map
          (Option.map fun v => (v.1, v.2 + depth.toNat)) := by
        rw [List.map_map]
        exact List.map_congr_left fun p _ => Place.visit?_eq_map_add nodes depth p
    _ = ((visits {} nodes).map fun v => (v.1, v.2.toNat + depth.toNat)).map some := by
        rw [map_visit?_placesFrom hfit.zero, List.map_map, List.map_map]
        rfl

/-! ## The places of a subtree -/

/-- The places in the tree of a node of a forest stand in a row. -/
theorem exists_placesFrom_eq_append {c : Node} : ∀ {ns : List Node} {i : Nat} (k : Nat),
    ns[i]? = some c → ∃ front behind,
      Node.placesFrom k ns = front ++ c.places.map (.child (k + i) :: ·) ++ behind
  | n :: ns, 0, k, h => by
    obtain rfl : n = c := Option.some.inj h
    exact ⟨[], Node.placesFrom (k + 1) ns, rfl⟩
  | n :: ns, i + 1, k, h => by
    rw [List.getElem?_cons_succ] at h
    obtain ⟨front, behind, hrest⟩ := exists_placesFrom_eq_append (k + 1) h
    refine ⟨n.places.map (.child k :: ·) ++ front, behind, ?_⟩
    rw [Node.placesFrom, hrest, Nat.add_right_comm]
    simp only [List.append_assoc, Nat.add_assoc]

/-- The places of an entered node are the node itself, the places of its children, and its pear. -/
theorem places_of_isEntered {n : Node} (h : n.isEntered = true) :
    n.places = [] :: (Node.placesFrom 0 n.children ++ n.pear.toList.map fun _ => [.pear]) := by
  obtain ⟨kind, token, name, isGhost, children, pear, attributes⟩ := n
  rw [Node.places, if_pos h]

/-- The places that belong to an entered place stand in a row. -/
theorem exists_places_eq_append : ∀ {p : Place} {m n : Node}, Entered m.at? p → m.at? p = some n →
    ∃ front behind, m.places = front ++ n.places.map (p ++ ·) ++ behind
  | [], m, n, _, hn => by
    rw [Node.at?_nil, Option.some.injEq] at hn
    rw [hn]
    exact ⟨[], [], by simp⟩
  | .child i :: p, m, n, hp, hn => by
    obtain ⟨hentered, hp⟩ := entered_child_iff.mp hp
    simp only [Node.at?_child] at hp hn
    obtain ⟨c, hc, hn⟩ := Option.bind_eq_some_iff.mp hn
    rw [hc] at hp
    obtain ⟨front, behind, hplaces⟩ := exists_places_eq_append hp hn
    obtain ⟨front', behind', hforest⟩ := exists_placesFrom_eq_append 0 hc
    rw [places_of_isEntered (hentered m (Node.at?_nil m)), hforest, hplaces]
    refine ⟨[] :: (front' ++ front.map (.child i :: ·)),
      behind.map (.child i :: ·) ++ (behind' ++ m.pear.toList.map fun _ => [.pear]), ?_⟩
    simp
  | .pear :: p, _, _, hp, _ => absurd hp not_entered_pear

/-- In a forest, too. -/
theorem exists_placesFrom_eq_append_places {nodes : List Node} {p : Place} {n : Node}
    (hp : Entered (Place.node? nodes) p) (hn : Place.node? nodes p = some n) :
    ∃ front behind,
      Node.placesFrom 0 nodes = front ++ n.places.map (p ++ ·) ++ behind := by
  cases p with
  | nil => cases hn
  | cons t p =>
    cases t with
    | child i =>
      obtain ⟨-, hp⟩ := entered_child_iff.mp hp
      simp only [Place.node?] at hp hn
      obtain ⟨c, hc, hn⟩ := Option.bind_eq_some_iff.mp hn
      rw [hc] at hp
      obtain ⟨front, behind, hplaces⟩ := exists_places_eq_append hp hn
      obtain ⟨front', behind', hforest⟩ := exists_placesFrom_eq_append 0 hc
      rw [hforest, hplaces]
      refine ⟨front' ++ front.map (.child i :: ·), behind.map (.child i :: ·) ++ behind', ?_⟩
      simp
    | pear => cases hn

/-! ## The visits of a subtree -/

theorem preorder_of_isEntered {n : Node} (h : n.isEntered = true) {config : WalkConfig}
    (hall : ∀ d, config.admits d = true) (depth : UInt64) :
    n.preorder config depth = (n, depth) ::
      (visitsFrom (depth + 1) n.children ++ n.pear.toList.map fun q => (q, depth)) := by
  rw [← preorderAll_eq_visitsFrom config hall]
  obtain ⟨kind, token, name, isGhost, children, pear, attributes⟩ := n
  rw [Node.preorder, if_pos h, hall, if_pos rfl]

/-- At the places that belong to an entered place, a walk makes the visits of the node there. -/
theorem map_visitWord?_append {config : WalkConfig} (hall : ∀ d, config.admits d = true)
    {nodes : List Node} {p : Place} {n : Node} (hn : Place.node? nodes p = some n) {s d : Nat}
    (hd : d + 1 = s + p.path.length) :
    (n.places.map (p ++ ·)).map (Place.visitWord? nodes s)
      = (n.preorder config (.ofNat d)).map some := by
  have hp : p ≠ [] := by
    rintro rfl
    cases hn
  rw [← map_at?_places hall, List.map_map]
  refine List.map_congr_left fun q _ => ?_
  have hlevel : s + (p ++ q : Place).path.length - 1 = d + q.path.length := by
    rw [Place.path_append, List.length_append]
    omega
  rw [Function.comp_apply, Place.visitWord?, Place.node?_append hp, hn, Option.bind_some, hlevel]

/-- What a walk visits from an entered node on is one part of the walk: the node, what a walk of its
children visits one level further down, and then its pear. In front of it stand the visits at the
places in front of the node, and behind it those at the places behind. -/
theorem exists_visitsFrom_eq_append {nodes : List Node} {p : Place} {n : Node}
    (hp : Entered (Place.node? nodes) p) (hn : Place.node? nodes p = some n)
    (hentered : n.isEntered = true) {s d : UInt64} (hfit : Place.LevelsFit nodes s)
    (hd : d.toNat + 1 = s.toNat + p.path.length) :
    ∃ front behind before after,
      Node.placesFrom 0 nodes = front ++ n.places.map (p ++ ·) ++ behind ∧
      front.map (Place.visit? nodes s) = before.map (some ∘ Prod.map id UInt64.toNat) ∧
      behind.map (Place.visit? nodes s) = after.map (some ∘ Prod.map id UInt64.toNat) ∧
      visitsFrom s nodes
        = before ++ (n, d) :: (visitsFrom (d + 1) n.children ++ n.pear.toList.map fun q => (q, d))
          ++ after := by
  obtain ⟨front, behind, hplaces⟩ := exists_placesFrom_eq_append_places hp hn
  have hall : ∀ depth, ({ startDepth := s } : WalkConfig).admits depth = true := fun _ => rfl
  have hvisits := map_visitWord?_placesFrom nodes s
  rw [hplaces, List.map_append, List.map_append, map_visitWord?_append hall hn hd,
    UInt64.ofNat_toNat] at hvisits
  obtain ⟨lead, after, hsplit, hlead, hafter⟩ := List.map_eq_append_iff.mp hvisits.symm
  obtain ⟨before, middle, rfl, hbefore, hmiddle⟩ := List.map_eq_append_iff.mp hlead
  obtain rfl : middle = n.preorder { startDepth := s } d :=
    List.map_injective_iff.mpr (fun _ _ => Option.some.inj) hmiddle
  -- in front and behind the levels fit as they do everywhere
  have hlevels := levelsFit_iff.mp hfit
  rw [hplaces, List.forall_mem_append, List.forall_mem_append] at hlevels
  refine ⟨front, behind, before, after, hplaces, map_visit?_of_fits hlevels.1.1 hbefore.symm,
    map_visit?_of_fits hlevels.2 hafter.symm, ?_⟩
  rw [hsplit, preorder_of_isEntered hentered hall]

/-! ## The walk -/

/-- Where the levels fit, a walk from another level makes the visits of a walk from the first one,
all of them as much further down, and so does any visitor that never stops. From an entered node
that it goes on from, a walk visits without a break the node, what a walk of its children one level
further down visits, and then its pear, if it has one. -/
theorem visitsFrom_subtree {nodes : List Node} {depth : UInt64}
    (hfit : Place.LevelsFit nodes depth) :
    (visitsFrom depth nodes).map (Prod.map id UInt64.toNat)
        = (visits {} nodes).map (fun v => (v.1, v.2.toNat + depth.toNat)) ∧
      (∀ (σ : Type) (visit : σ → Node → UInt64 → σ) (state : σ),
        walkAll { startDepth := depth } visit nodes state
          = walkAll {} (fun s n d => visit s n (d + depth)) nodes state) ∧
      ∀ p n, Entered (Place.node? nodes) p → Place.node? nodes p = some n → n.isEntered = true →
        ∃ d : UInt64, d.toNat + 1 = depth.toNat + p.path.length ∧ ∃ front behind before after,
          Node.placesFrom 0 nodes = front ++ n.places.map (p ++ ·) ++ behind ∧
          front.map (Place.visit? nodes depth) = before.map (some ∘ Prod.map id UInt64.toNat) ∧
          behind.map (Place.visit? nodes depth) = after.map (some ∘ Prod.map id UInt64.toNat) ∧
          visitsFrom depth nodes
            = before
              ++ (n, d) :: (visitsFrom (d + 1) n.children ++ n.pear.toList.map fun q => (q, d))
              ++ after := by
  refine ⟨map_toNat_visitsFrom hfit, fun σ visit state => ?_, fun p n hp hn hentered => ?_⟩
  · rw [walkAll_eq_foldl, walkAll_eq_foldl, ← visits_eq_preorderAll, ← visits_eq_preorderAll,
      ← visitsFrom, visitsFrom_eq_map_add, List.foldl_map]
  · have hpath := Place.length_path_pos hn
    have hlevel : (UInt64.ofNat (p.level depth)).toNat + 1 = depth.toNat + p.path.length := by
      rw [UInt64.toNat_ofNat_of_lt' (hfit p hp), Place.level]
      omega
    exact ⟨_, hlevel, exists_visitsFrom_eq_append hp hn hentered hfit hlevel⟩

/-- The second of two equal elements inside another one, in a walk from level two. -/
theorem visitsFrom_subtree_nested :
    let token (n : UInt64) : Token := ⟨⟨n⟩, [], 0, 0, 1, 1, 1, 1⟩
    let stop := Node.parent .endTag (token 4) ['b'] []
    let inner := { Node.parent .startTag (token 2) ['b'] [Node.leaf .text (token 3)] with
      pear := some stop }
    let nodes := [Node.parent .startTag (token 1) ['a'] [inner, inner]]
    let p : Place := [.child 0, .child 1]
    Place.LevelsFit nodes 2 ∧ Entered (Place.node? nodes) p ∧
      Place.node? nodes p = some inner ∧ inner.isEntered = true ∧
        ∃ before after, visitsFrom 2 nodes
          = before ++ (inner, 3) :: (visitsFrom 4 inner.children ++ [(stop, 3)]) ++ after := by
  intro token stop inner nodes p
  have hfit : Place.LevelsFit nodes 2 := levelsFit_iff.mpr (by decide)
  have hentered : Entered (Place.node? nodes) p :=
    entered_of_mem_placesFrom (by decide) (by decide)
  refine ⟨hfit, hentered, rfl, rfl, ?_⟩
  obtain ⟨d, hd, front, behind, before, after, -, -, -, hvisits⟩ :=
    (visitsFrom_subtree hfit).2.2 p inner hentered rfl rfl
  obtain rfl : d = 3 := UInt64.toNat_inj.mp (Nat.succ.inj hd)
  exact ⟨before, after, hvisits⟩

/-- From the last level there is, the text in an element is not visited one level further down. -/
theorem visitsFrom_subtree_overflow :
    let token (n : UInt64) : Token := ⟨⟨n⟩, [], 0, 0, 1, 1, 1, 1⟩
    let text := Node.leaf .text (token 2)
    let element := Node.parent .startTag (token 1) ['a'] [text]
    visitsFrom 18446744073709551615 [element] = [(element, 18446744073709551615), (text, 0)] ∧
      visits {} [element] = [(element, 0), (text, 1)] ∧
      (visitsFrom 18446744073709551615 [element]).map (Prod.map id UInt64.toNat)
        ≠ (visits {} [element]).map fun v => (v.1, v.2.toNat + 18446744073709551615) := by
  intro token text element
  have hfar : visitsFrom 18446744073709551615 [element]
      = [(element, 18446744073709551615), (text, 0)] := by
    rw [visitsFrom, visits_eq_preorderAll]
    rfl
  have hnear : visits {} [element] = [(element, 0), (text, 1)] := by
    rw [visits_eq_preorderAll]
    rfl
  refine ⟨hfar, hnear, fun h => ?_⟩
  rw [hfar, hnear] at h
  exact absurd (congrArg (List.map Prod.snd) h) (by decide)

end MarkupTree
