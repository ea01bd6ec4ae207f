import MarkupTree.Proofs.Walk.Levels

/-!
# Walks with a bound

A bound on the depth cuts a walk off below a level. What it leaves out are whole forests of
children, and these lie below the level with all that belongs to them, while a pear stands at the
level of its owner. So a bound takes visits away by their depth alone and changes nothing else, and
the level that a walk begins with is never left out.

* `le_depth_of_mem_preorderAll` — no visit is above the level that a walk begins with
* `preorderAll_bounded` — a bounded walk filters the visits of a walk without a bound
* `map_visit?_filter`, `append_pear_mem_downTo` — at which places that is, and that a pear stays
  with its owner
* `visits_bounded` — all of this for a walk from any level
-/

namespace MarkupTree

/-! ## Depths -/

mutual

theorem le_depth_of_mem_preorder (config : WalkConfig) (depth : UInt64) :
    ∀ n : Node, n.Fits depth → ∀ v ∈ n.preorder config depth, depth ≤ v.2
  | ⟨kind, token, name, isGhost, children, pear, attributes⟩ => by
    have hchildren := le_depth_of_mem_preorderAll config (depth + 1) children
    intro hfit v hv
    rw [Node.preorder, List.mem_cons] at hv
    rcases hv with rfl | hv
    · exact UInt64.le_refl depth
    · split at hv
      next hentered =>
        rcases List.mem_append.mp hv with hbelow | hpear
        · split at hbelow
          · have hlevel := hchildren (fun c hc => (hfit.below hentered hc).2) v hbelow
            rw [preorderAll_eq_flatMap] at hbelow
            obtain ⟨c, hc, -⟩ := List.mem_flatMap.mp hbelow
            have hnext := (hfit.below hentered hc).1
            rw [UInt64.le_iff_toNat_le] at hlevel ⊢
            omega
          · exact absurd hbelow List.not_mem_nil
        · obtain ⟨p, -, rfl⟩ := List.mem_map.mp hpear
          exact UInt64.le_refl depth
      next => exact absurd hv List.not_mem_nil

/-- Where the levels fit, no visit is above the level that a walk begins with. -/
theorem le_depth_of_mem_preorderAll (config : WalkConfig) (depth : UInt64) :
    ∀ ns : List Node, (∀ n ∈ ns, n.Fits depth) →
      ∀ v ∈ Node.preorderAll config depth ns, depth ≤ v.2
  | [] => fun _ _ hv => absurd hv List.not_mem_nil
  | n :: ns => by
    have hfirst := le_depth_of_mem_preorder config depth n
    have hrest := le_depth_of_mem_preorderAll config depth ns
    intro hfit
    rw [List.forall_mem_cons] at hfit
    rw [Node.preorderAll]
    exact List.forall_mem_append.mpr ⟨hfirst hfit.1, hrest hfit.2⟩

end

/-! ## The visits that a bound keeps -/

mutual

theorem preorder_bounded {config free : WalkConfig} {bound : UInt64}
    (hbound : ∀ d, config.admits d = decide (d ≤ bound)) (hfree : ∀ d, free.admits d = true)
    (depth : UInt64) : ∀ n : Node, n.Fits depth →
      n.preorder config depth = (n.preorder free depth).filter (·.2 ≤ max bound depth)
  | ⟨kind, token, name, isGhost, children, pear, attributes⟩ => by
    have hchildren := preorderAll_bounded hbound hfree (depth + 1) children
    intro hfit
    have hself : depth ≤ max bound depth := by
      rw [UInt64.le_iff_toNat_le, UInt64.toNat_max]
      exact Nat.le_max_right _ _
    rw [Node.preorder, Node.preorder, hbound, hfree, if_pos rfl, List.filter_cons,
      if_pos (decide_eq_true hself)]
    congr 1
    split
    next hentered =>
      -- a pear is at the level of its owner, so no bound takes it away
      have hpear : (pear.toList.map fun p => (p, depth)).filter (·.2 ≤ max bound depth)
          = pear.toList.map fun p => (p, depth) := by
        rw [List.filter_eq_self]
        intro v hv
        obtain ⟨p, -, rfl⟩ := List.mem_map.mp hv
        exact decide_eq_true hself
      rw [List.filter_append, hpear]
      congr 1
      cases children with
      | nil => split <;> rfl
      | cons c cs =>
        have hnext := (hfit.below hentered List.mem_cons_self).1
        have hbelow := fun c hc => (hfit.below hentered (c := c) hc).2
        by_cases hinside : depth + 1 ≤ bound
        · rw [if_pos (decide_eq_true hinside), hchildren hbelow]
          refine List.filter_congr fun v _ => decide_eq_decide.mpr ?_
          rw [UInt64.le_iff_toNat_le] at hinside
          rw [UInt64.le_iff_toNat_le, UInt64.le_iff_toNat_le, UInt64.toNat_max, UInt64.toNat_max]
          omega
        · -- the children are below the bound, and so is all that belongs to them
          rw [if_neg (by simpa using hinside), eq_comm, List.filter_eq_nil_iff]
          intro v hv
          have hlevel := le_depth_of_mem_preorderAll free (depth + 1) (c :: cs) hbelow v hv
          rw [UInt64.le_iff_toNat_le] at hinside hlevel
          rw [decide_eq_true_eq, UInt64.le_iff_toNat_le, UInt64.toNat_max]
          omega
    next => rfl

/-- Where the levels fit, a bounded walk filters the visits of a walk without a bound. -/
theorem preorderAll_bounded {config free : WalkConfig} {bound : UInt64}
    (hbound : ∀ d, config.admits d = decide (d ≤ bound)) (hfree : ∀ d, free.admits d = true)
    (depth : UInt64) : ∀ ns : List Node, (∀ n ∈ ns, n.Fits depth) →
      Node.preorderAll config depth ns
        = (Node.preorderAll free depth ns).filter (·.2 ≤ max bound depth)
  | [] => fun _ => rfl
  | n :: ns => by
    have hfirst := preorder_bounded hbound hfree depth n
    have hrest := preorderAll_bounded hbound hfree depth ns
    intro hfit
    rw [List.forall_mem_cons] at hfit
    rw [Node.preorderAll, Node.preorderAll, List.filter_append, hfirst hfit.1, hrest hfit.2]

end

/-! ## The places that a bound keeps -/

/-- The places that a walk whose first level is `depth` visits down to a level. -/
def Place.downTo (nodes : List Node) (depth level : UInt64) : List Place :=
  (Node.placesFrom 0 nodes).filter fun p => p.level depth ≤ level.toNat

/-- Visits that are made place by place and filtered by their depth are those of the places down to
a level. -/
theorem map_visit?_filter {nodes : List Node} {depth level : UInt64} {places : List Place}
    {order : List (Node × UInt64)}
    (h : places.map (Place.visit? nodes depth) = order.map (some ∘ Prod.map id UInt64.toNat)) :
    (places.filter fun p => p.level depth ≤ level.toNat).map (Place.visit? nodes depth)
      = (order.filter (·.2 ≤ level)).map (some ∘ Prod.map id UInt64.toNat) := by
  induction places generalizing order with
  | nil =>
    rw [List.map_nil, eq_comm, List.map_eq_nil_iff] at h
    rw [h]
    rfl
  | cons p ps ih =>
    rw [List.map_cons, eq_comm, List.map_eq_cons_iff] at h
    obtain ⟨v, order, rfl, hv, hrest⟩ := h
    obtain ⟨n, -, hlevel⟩ := Option.map_eq_some_iff.mp hv.symm
    have hkept : p.level depth ≤ level.toNat ↔ v.2 ≤ level := by
      rw [UInt64.le_iff_toNat_le, show p.level depth = v.2.toNat from congrArg Prod.snd hlevel]
    by_cases hlow : v.2 ≤ level
    · rw [List.filter_cons_of_pos (by simpa [hkept] using hlow),
        List.filter_cons_of_pos (by simpa using hlow), List.map_cons, List.map_cons,
        ih hrest.symm, hv]
    · rw [List.filter_cons_of_neg (by simpa [hkept] using hlow),
        List.filter_cons_of_neg (by simpa using hlow), ih hrest.symm]

/-- Down to a level, the pear of an entered node is visited with the node. -/
theorem append_pear_mem_downTo {nodes : List Node} {depth level : UInt64} {p : Place} {n q : Node}
    (hp : p ∈ Place.downTo nodes depth level) (hchildren : Turn.pear ∉ p)
    (hn : Place.node? nodes p = some n) (hentered : n.isEntered = true) (hq : n.pear = some q) :
    p ++ [.pear] ∈ Place.downTo nodes depth level := by
  rw [Place.downTo, List.mem_filter] at hp ⊢
  rw [Place.level_append_pear]
  exact ⟨append_pear_mem_placesFrom hp.1 hchildren hn hentered hq, hp.2⟩

/-! ## The walk -/

/-- A bound on the depth of a walk takes away the visits below it. -/
structure CutOff (nodes : List Node) (depth bound : UInt64) : Prop where
  /-- The other visits stay, and so do all of the level that the walk begins with. -/
  visits_eq : visits { maxDepth := some bound, startDepth := depth } nodes
    = (visitsFrom depth nodes).filter (·.2 ≤ max bound depth)
  atPlaces : (Place.downTo nodes depth (max bound depth)).map (Place.visit? nodes depth)
    = (visits { maxDepth := some bound, startDepth := depth } nodes).map
        (some ∘ Prod.map id UInt64.toNat)
  /-- With an entered node its pear is visited, also where the children are left out. -/
  pear : ∀ p ∈ Place.downTo nodes depth (max bound depth), Turn.pear ∉ p → ∀ n q,
    Place.node? nodes p = some n → n.isEntered = true → n.pear = some q →
      p ++ [.pear] ∈ Place.downTo nodes depth (max bound depth) ∧
        Place.node? nodes (p ++ [.pear]) = some q
  /-- A greater bound only adds visits. -/
  mono : ∀ greater, bound ≤ greater →
    (visits { maxDepth := some bound, startDepth := depth } nodes).Sublist
      (visits { maxDepth := some greater, startDepth := depth } nodes)
  /-- Any visitor that never stops sees just these visits. -/
  visitor : ∀ (σ : Type) (visit : σ → Node → UInt64 → σ) (state : σ),
    walkAll { maxDepth := some bound, startDepth := depth } visit nodes state
      = ((visitsFrom depth nodes).filter (·.2 ≤ max bound depth)).foldl
          (fun s v => visit s v.1 v.2) state

/-- Where the levels fit, a bound on the depth is a filter on the visits of a walk without one. -/
theorem visits_bounded {nodes : List Node} {depth : UInt64} (hfit : Place.LevelsFit nodes depth)
    (bound : UInt64) : CutOff nodes depth bound := by
  have hfilter (limit : UInt64) : visits { maxDepth := some limit, startDepth := depth } nodes
      = (visitsFrom depth nodes).filter (·.2 ≤ max limit depth) := by
    rw [visitsFrom, visits_eq_preorderAll, visits_eq_preorderAll]
    exact preorderAll_bounded (fun _ => rfl) (fun _ => rfl) depth nodes hfit.fits
  constructor
  case visits_eq => exact hfilter bound
  case atPlaces =>
    rw [hfilter]
    exact map_visit?_filter (map_visit?_placesFrom hfit)
  case pear =>
    intro p hp hchildren n q hn hentered hq
    refine ⟨append_pear_mem_downTo hp hchildren hn hentered hq, ?_⟩
    rw [Place.node?_append_pear, hn, Option.bind_some, hq]
  case mono =>
    intro greater hle
    rw [hfilter, hfilter]
    refine List.monotone_filter_right _ fun v hv => ?_
    rw [decide_eq_true_eq, UInt64.le_iff_toNat_le, UInt64.toNat_max] at hv ⊢
    rw [UInt64.le_iff_toNat_le] at hle
    omega
  case visitor =>
    intro σ visit state
    rw [walkAll_eq_foldl, ← visits_eq_preorderAll, hfilter]

/-- An element in another one is kept on the last level, and the text in it is not. -/
theorem visits_bounded_last :
    let token (n : UInt64) : Token := ⟨⟨n⟩, [], 0, 0, 1, 1, 1, 1⟩
    let stop := Node.parent .endTag (token 4) ['b'] []
    let inner := { Node.parent .startTag (token 2) ['b'] [Node.leaf .text (token 3)] with
      pear := some stop }
    let outer := Node.parent .startTag (token 1) ['a'] [inner]
    Place.LevelsFit [outer] 7 ∧ CutOff [outer] 7 8 ∧
      visits { maxDepth := some 8, startDepth := 7 } [outer]
        = [(outer, 7), (inner, 8), (stop, 8)] := by
  intro token stop inner outer
  have hfit : Place.LevelsFit [outer] 7 := levelsFit_iff.mpr (by decide)
  refine ⟨hfit, visits_bounded hfit 8, ?_⟩
  rw [visits_eq_preorderAll]
  rfl

/-- From the last level there is, the next one is level zero, where a bound of zero keeps an element
and takes away what is in it. -/
theorem visits_bounded_overflow :
    let token (n : UInt64) : Token := ⟨⟨n⟩, [], 0, 0, 1, 1, 1, 1⟩
    let inner := Node.parent .startTag (token 2) ['b'] [Node.leaf .text (token 3)]
    let outer := Node.parent .startTag (token 1) ['a'] [inner]
    let last : UInt64 := 18446744073709551615
    let named (v : Node × UInt64) : List Char × UInt64 := (v.1.name, v.2)
    (visits { maxDepth := some 0, startDepth := last } [outer]).map named
        = [(['a'], last), (['b'], 0)] ∧
      ((visitsFrom last [outer]).filter (·.2 ≤ max 0 last)).map named
        = [(['a'], last), (['b'], 0), (NodeKind.text.tag, 1)] ∧
      visits { maxDepth := some 0, startDepth := last } [outer]
        ≠ (visitsFrom last [outer]).filter (·.2 ≤ max 0 last) := by
  intro token inner outer last named
  have hbounded : (visits { maxDepth := some 0, startDepth := last } [outer]).map named
      = [(['a'], last), (['b'], 0)] := by
    rw [visits_eq_preorderAll]
    decide +kernel
  have hfree : ((visitsFrom last [outer]).filter (·.2 ≤ max 0 last)).map named
      = [(['a'], last), (['b'], 0), (NodeKind.text.tag, 1)] := by
    rw [visitsFrom, visits_eq_preorderAll]
    decide +kernel
  refine ⟨hbounded, hfree, fun h => ?_⟩
  rw [h, hfree] at hbounded
  exact absurd (congrArg List.length hbounded) (by decide)

end MarkupTree
