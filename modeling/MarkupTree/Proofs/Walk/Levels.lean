import MarkupTree.Proofs.Walk.Places

/-!
# The levels of a walk

A place has the level that the children on the way to it count. A walk counts its levels in words,
and behind the last word it begins at zero again, so it visits the places at their levels as long as
all of them fit into a word. In a forest that means the levels of the places that are entered, for a
pear is on the level of its owner.

* `levelsFit_iff`, `Node.Fits.below` — where the levels fit, and that they do so further down
* `map_visit?_placesFrom` — there a walk makes its visits at the levels of the places
* `visitsFrom_places` — what a walk visits, and at which level
-/

namespace MarkupTree

/-! ## Levels -/

namespace Place

/-- The level of a place of a forest, when that of the top nodes is `depth`. -/
def level (depth : UInt64) (p : Place) : Nat := depth.toNat + p.path.length - 1

/-- The node at a place of a forest with the level of the place. -/
def visit? (nodes : List Node) (depth : UInt64) (p : Place) : Option (Node × Nat) :=
  (node? nodes p).map fun n => (n, p.level depth)

/-- From `depth` on, every level that a walk comes to fits into a word. -/
def LevelsFit (nodes : List Node) (depth : UInt64) : Prop :=
  ∀ p, Entered (node? nodes) p → p.level depth < UInt64.size

/-- A pear is no deeper than its owner. -/
theorem path_append_pear (p : Place) : path (p ++ [.pear]) = path p := by
  rw [path_append]
  exact List.append_nil _

theorem level_append_pear (depth : UInt64) (p : Place) :
    level depth (p ++ [.pear]) = level depth p := by
  rw [level, level, path_append_pear]

end Place

/-! ## Levels that fit -/

/-- From `depth` on, every level in the tree of a node that a walk comes to fits into a word. -/
def Node.Fits (n : Node) (depth : UInt64) : Prop :=
  ∀ p ∈ n.places, depth.toNat + p.path.length < UInt64.size

theorem levelsFit_iff {nodes : List Node} {depth : UInt64} :
    Place.LevelsFit nodes depth ↔
      ∀ p ∈ Node.placesFrom 0 nodes, p.level depth < UInt64.size := by
  simp only [mem_placesFrom_zero_iff]
  constructor
  · rintro h p (hp | ⟨q, n, rfl, hq, -⟩)
    · exact h p hp
    · rw [Place.level_append_pear]
      exact h q hq
  · exact fun h p hp => h p (Or.inl hp)

/-- The levels of a forest fit if those of each of its trees do. -/
theorem Place.LevelsFit.fits {nodes : List Node} {depth : UInt64} (h : LevelsFit nodes depth) :
    ∀ n ∈ nodes, n.Fits depth := by
  intro n hn p hp
  obtain ⟨i, hi⟩ := List.mem_iff_getElem?.mp hn
  have hlevel := levelsFit_iff.mp h _ (child_mem_placesFrom_iff.mpr ⟨n, hi, hp⟩)
  rw [level, path_child, List.length_cons] at hlevel
  omega

/-- Below a node that a walk goes on from, the next level is the next number, and there the levels
fit as well. -/
theorem Node.Fits.below {n c : Node} {depth : UInt64} (h : n.Fits depth)
    (hentered : n.isEntered = true) (hc : c ∈ n.children) :
    (depth + 1).toNat = depth.toNat + 1 ∧ c.Fits (depth + 1) := by
  obtain ⟨i, hi⟩ := List.mem_iff_getElem?.mp hc
  have hbelow (p : Place) (hp : p ∈ c.places) : depth.toNat + 1 + p.path.length < UInt64.size := by
    have hlevel := h _ (child_mem_places_iff.mpr ⟨hentered, c, hi, hp⟩)
    rw [Place.path_child, List.length_cons] at hlevel
    omega
  have hnext : (depth + 1).toNat = depth.toNat + 1 := by
    rw [UInt64.toNat_add, UInt64.toNat_one, Nat.mod_eq_of_lt]
    exact Nat.lt_of_le_of_lt (Nat.le_add_right _ _) (hbelow [] (nil_mem_places c))
  refine ⟨hnext, fun p hp => ?_⟩
  rw [hnext]
  exact hbelow p hp

/-- Where the levels fit, visits that are made place by place are made at the levels of the
places. -/
theorem map_visit?_of_fits {nodes : List Node} {depth : UInt64} {places : List Place}
    {order : List (Node × UInt64)} (hfit : ∀ p ∈ places, p.level depth < UInt64.size)
    (h : places.map (Place.visitWord? nodes depth.toNat) = order.map some) :
    places.map (Place.visit? nodes depth) = order.map (some ∘ Prod.map id UInt64.toNat) := by
  have hcounted := congrArg (List.map (Option.map (Prod.map id UInt64.toNat))) h
  rw [List.map_map, List.map_map] at hcounted
  refine Eq.trans (List.map_congr_left fun p hp => ?_) hcounted
  have hword : (UInt64.ofNat (p.level depth)).toNat = p.level depth :=
    UInt64.toNat_ofNat_of_lt' (hfit p hp)
  cases hn : Place.node? nodes p with
  | none => simp [Place.visit?, Place.visitWord?, hn]
  | some n =>
    simp only [Place.visit?, Place.visitWord?, hn, Option.map_some, Function.comp_apply,
      Prod.map_apply, id_eq, Option.some.injEq, Prod.mk.injEq, true_and]
    exact hword.symm

/-! ## The walk -/

/-- A walk without a bound makes its visits at the places of the forest. -/
theorem map_visitWord?_placesFrom (nodes : List Node) (depth : UInt64) :
    (Node.placesFrom 0 nodes).map (Place.visitWord? nodes depth.toNat)
      = (visitsFrom depth nodes).map some := by
  have hall : ∀ d, ({ startDepth := depth } : WalkConfig).admits d = true := fun _ => rfl
  have hmap := map_node?_placesFrom hall depth.toNat [] nodes
  rw [visitsFrom, visits_eq_preorderAll]
  rwa [UInt64.ofNat_toNat] at hmap

/-- Where the levels fit, at the levels of the places. -/
theorem map_visit?_placesFrom {nodes : List Node} {depth : UInt64}
    (hfit : Place.LevelsFit nodes depth) :
    (Node.placesFrom 0 nodes).map (Place.visit? nodes depth)
      = (visitsFrom depth nodes).map (some ∘ Prod.map id UInt64.toNat) :=
  map_visit?_of_fits (levelsFit_iff.mp hfit) (map_visitWord?_placesFrom nodes depth)

/-- A walk from `depth` goes through a row of places: those that it enters and the pears of the
entered nodes that it goes on from. -/
structure GoesThrough (nodes : List Node) (depth : UInt64) (places : List Place) : Prop where
  /-- The visits are made place by place, at the levels that the children on the way count. -/
  visits : places.map (Place.visit? nodes depth)
    = (visitsFrom depth nodes).map (some ∘ Prod.map id UInt64.toNat)
  /-- No place is visited twice. -/
  nodup : places.Nodup
  inOrder : places.Pairwise Place.Before
  mem_iff : ∀ p, p ∈ places ↔ Entered (Place.node? nodes) p ∨ EnteredPear (Place.node? nodes) p
  /-- Nothing that belongs to a pear, to an end tag or to a node of a kind without children is
  visited. -/
  through : ∀ p t, p ++ [t] ∈ places →
    Turn.pear ∉ p ∧ ∀ n, Place.node? nodes p = some n → n.isEntered = true
  /-- From where the walk goes on to children, the next level is a word. -/
  goesOn : ∀ p n, Entered (Place.node? nodes) p → Place.node? nodes p = some n →
    n.isEntered = true → n.children ≠ [] → p.level depth + 1 < UInt64.size

/-- Where the levels fit, a walk visits every place that it enters and the pear of every entered
node that it goes on from, each once, in the order of the tree and at its level. -/
theorem visitsFrom_places {nodes : List Node} {depth : UInt64}
    (hfit : Place.LevelsFit nodes depth) : ∃ places, GoesThrough nodes depth places := by
  have hordered := pairwise_placesFrom 0 nodes
  refine ⟨Node.placesFrom 0 nodes, ?_⟩
  constructor
  case visits => exact map_visit?_placesFrom hfit
  case nodup =>
    refine hordered.imp ?_
    rintro p q hbefore rfl
    exact Place.before_irrefl p hbefore
  case inOrder => exact hordered
  case mem_iff => exact mem_placesFrom_zero_iff nodes
  case through =>
    intro p t ht
    exact through_of_append_singleton ((mem_placesFrom_zero_iff nodes _).mp ht)
  case goesOn =>
    intro p n hp hn hentered hchildren
    have hbelow := hfit _ (hp.append_child hn hentered (List.head?_eq_getElem?.symm.trans
      (List.head?_eq_some_head hchildren)))
    rw [Place.level, Place.path_append, List.length_append, Place.path_child,
      List.length_cons, UInt64.size] at hbelow
    rw [Place.level, UInt64.size]
    omega

/-- An element with its end tag and a text, in a walk that comes to the last level there is. -/
theorem visitsFrom_places_last :
    let token (n : UInt64) : Token := ⟨⟨n⟩, [], 0, 0, 1, 1, 1, 1⟩
    let stop := Node.parent .endTag (token 3) ['a'] []
    let text := Node.leaf .text (token 2)
    let element := { Node.parent .startTag (token 1) ['a'] [text] with pear := some stop }
    Place.LevelsFit [element] 18446744073709551614 ∧
      (∃ places, GoesThrough [element] 18446744073709551614 places) ∧
      visitsFrom 18446744073709551614 [element] = [(element, 18446744073709551614),
        (text, 18446744073709551615), (stop, 18446744073709551614)] := by
  intro token stop text element
  have hfit : Place.LevelsFit [element] 18446744073709551614 := levelsFit_iff.mpr (by decide)
  refine ⟨hfit, visitsFrom_places hfit, ?_⟩
  rw [visitsFrom, visits_eq_preorderAll]
  rfl

/-- One level further down, the text is visited at level zero, and at its own level there is no
visit. -/
theorem visitsFrom_places_overflow :
    let token (n : UInt64) : Token := ⟨⟨n⟩, [], 0, 0, 1, 1, 1, 1⟩
    let text := Node.leaf .text (token 2)
    let element := Node.parent .startTag (token 1) ['a'] [text]
    visitsFrom 18446744073709551615 [element] = [(element, 18446744073709551615), (text, 0)] ∧
      ¬∃ places : List Place,
        places.map (Place.visit? [element] 18446744073709551615)
            = (visitsFrom 18446744073709551615 [element]).map (some ∘ Prod.map id UInt64.toNat) ∧
          ∀ p, p ∈ places ↔
            Entered (Place.node? [element]) p ∨ EnteredPear (Place.node? [element]) p := by
  intro token text element
  have hvisits : visitsFrom 18446744073709551615 [element]
      = [(element, 18446744073709551615), (text, 0)] := by
    rw [visitsFrom, visits_eq_preorderAll]
    rfl
  refine ⟨hvisits, ?_⟩
  rintro ⟨places, hplaces, hmem⟩
  -- the place of the text is entered, and no visit is as deep as that
  have htext : [.child 0, .child 0] ∈ places :=
    (hmem _).mpr ((mem_placesFrom_zero_iff [element] _).mp (by decide))
  have hvisit := List.mem_map_of_mem htext (f := Place.visit? [element] 18446744073709551615)
  rw [hplaces, hvisits] at hvisit
  simp [Place.visit?, Place.level, Place.node?, Place.path, element] at hvisit

end MarkupTree
