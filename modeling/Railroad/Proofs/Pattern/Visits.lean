/-
# A census is the same in every order of visits

The walk of a census takes one pending node at a time, counts it, and adds its children to
the pending nodes.  Which node it takes next is not what a census is about: it may be the one
that was added last, as on a stack, the one added first, or any other (`Visit`).

Every node of the tree is visited once at its depth (`Node.positions`), and it does not matter
in which order nodes are counted (`Census.add_comm`).  So no visit changes what a walk comes to
in the end, its total (`Visit.total_eq`), and each visit leaves one node less to be visited
(`Visit.sizes_eq`).  Every walk from the root therefore ends, and ends in the same census:

| part of the census | what it is, by the children of the root |
| --- | --- |
| nodes | one more than the nodes of all children |
| depth | one more than the greatest depth of a child |
| names | how many nodes of the tree have the name |

This is `census_of_every_walk`.
-/

import Mathlib.Algebra.Ring.Nat
import Mathlib.Logic.Relation
import Railroad.Proofs.Pattern.Tally

namespace Railroad
namespace Pattern

/-! ### Counting in another order -/

/-- Two names are counted in either order. -/
theorem tally_comm (first second : String) (names : List (String × Nat)) :
    tally second (tally first names) = tally first (tally second names) := by
  induction names with
  | nil => grind [tally]
  | cons entry names ih =>
      obtain ⟨other, count⟩ := entry
      grind [tally]

/-- Every tally counts one more. -/
theorem sum_tally (name : String) (names : List (String × Nat)) :
    ((tally name names).map Prod.snd).sum = (names.map Prod.snd).sum + 1 := by
  fun_induction tally name names with
  | case1 => rfl
  | case2 count rest =>
      simp only [List.map_cons, List.sum_cons]
      omega
  | case3 other count rest hne hlt =>
      simp only [List.map_cons, List.sum_cons]
      omega
  | case4 other count rest hne hlt ih =>
      simp only [List.map_cons, List.sum_cons, ih]
      omega

namespace Census

variable (census : Census) (name other : String) (depth depth' : Nat)

/-- The depth of a census is that of the deepest node so far. -/
theorem depth_add : (census.add name depth).depth = max census.depth depth := by
  dsimp only [add]
  split <;> omega

/-- **Two nodes are counted in either order.** -/
theorem add_comm :
    (census.add name depth).add other depth' = (census.add other depth').add name depth := by
  have hdepth : ((census.add name depth).add other depth').depth =
      ((census.add other depth').add name depth).depth := by
    rw [depth_add, depth_add, depth_add, depth_add, Nat.max_right_comm]
  have hnames : tally other (tally name census.names) = tally name (tally other census.names) :=
    tally_comm name other census.names
  simp only [add] at hdepth ⊢
  rw [hdepth, hnames]

/-- Counts some nodes, each at its depth. -/
def addAll (census : Census) (places : List (Node × Nat)) : Census :=
  places.foldl (fun census place => census.add place.1.name place.2) census

section

variable {census}

@[simp] theorem addAll_nil : census.addAll [] = census := rfl

@[simp] theorem addAll_cons (node : Node) (places : List (Node × Nat)) :
    census.addAll ((node, depth) :: places) = (census.add node.name depth).addAll places := rfl

/-- Nodes are added to a census one after the other. -/
theorem addAll_append (places places' : List (Node × Nat)) :
    census.addAll (places ++ places') = (census.addAll places).addAll places' :=
  List.foldl_append

/-- Nodes are counted in any order. -/
theorem addAll_perm {places places' : List (Node × Nat)} (h : places.Perm places') :
    census.addAll places = census.addAll places' :=
  h.foldl_eq' (fun place _ place' _ census =>
    census.add_comm place.1.name place'.1.name place.2 place'.2) census

/-- A census has as many nodes as were added. -/
theorem nodes_addAll (places : List (Node × Nat)) :
    (census.addAll places).nodes = census.nodes + places.length := by
  induction places generalizing census with
  | nil => rfl
  | cons place places ih =>
      have hnode : (census.add place.1.name place.2).nodes = census.nodes + 1 := rfl
      rw [addAll_cons, ih, hnode, List.length_cons]
      omega

/-- So have its counts by name, all together. -/
theorem sum_names_addAll (places : List (Node × Nat)) :
    ((census.addAll places).names.map Prod.snd).sum =
      (census.names.map Prod.snd).sum + places.length := by
  induction places generalizing census with
  | nil => rfl
  | cons place places ih =>
      have hname : ((census.add place.1.name place.2).names.map Prod.snd).sum =
          (census.names.map Prod.snd).sum + 1 := sum_tally place.1.name census.names
      rw [addAll_cons, ih, hname, List.length_cons]
      omega

end

end Census

namespace Node

/-! ### The nodes of a tree with their depths -/

mutual

/-- The nodes of a tree in preorder, each with its depth; the root has the given one. -/
def positions (depth : Nat) : Node → List (Node × Nat)
  | sequence items => (sequence items, depth) :: positionsIn (depth + 1) items
  | choice alternatives => (choice alternatives, depth) :: positionsIn (depth + 1) alternatives
  | optional item => (optional item, depth) :: positions (depth + 1) item
  | zeroOrMore item => (zeroOrMore item, depth) :: positions (depth + 1) item
  | oneOrMore item => (oneOrMore item, depth) :: positions (depth + 1) item
  | counted item quantifier => (counted item quantifier, depth) :: positions (depth + 1) item
  | group content kind => (group content kind, depth) :: positions (depth + 1) content
  | node => [(node, depth)]

/-- The nodes of the trees of a list with their depths, tree by tree. -/
def positionsIn (depth : Nat) : List Node → List (Node × Nat)
  | [] => []
  | node :: nodes => positions depth node ++ positionsIn depth nodes

end

/-- The nodes of several trees with their depths, those of one after those of the other. -/
theorem positionsIn_eq_flatMap (depth : Nat) (nodes : List Node) :
    positionsIn depth nodes = nodes.flatMap (positions depth) := by
  induction nodes with
  | nil => rfl
  | cons node nodes ih => rw [positionsIn, ih, List.flatMap_cons]

/-- The children of a node stand one level below it. -/
theorem positions_eq (depth : Nat) (node : Node) :
    node.positions depth =
      (node, depth) :: node.children.flatMap (positions (depth + 1)) := by
  cases node <;> simp [positions, children, positionsIn_eq_flatMap]

/-- Without the depths this is the preorder. -/
theorem map_fst_positions (node : Node) (depth : Nat) :
    (node.positions depth).map Prod.fst = node.preorder := by
  induction node using induction_children generalizing depth with
  | step node ih =>
      have hchildren : (node.children.flatMap fun child =>
          (child.positions (depth + 1)).map Prod.fst) = node.children.flatMap preorder :=
        List.flatMap_congr fun child hmem => ih child hmem (depth + 1)
      rw [positions_eq, preorder_eq, List.map_cons, List.map_flatMap, hchildren]

/-! ### How many nodes, and how deep -/

/-- The sizes of several trees together. -/
theorem sizes_eq_sum (nodes : List Node) : sizes nodes = (nodes.map size).sum := by
  induction nodes with
  | nil => rfl
  | cons node nodes ih => rw [sizes, ih, List.map_cons, List.sum_cons]

/-- A tree has as many nodes with depths as its size says, … -/
theorem length_positions (node : Node) (depth : Nat) :
    (node.positions depth).length = node.size := by
  induction node using induction_children generalizing depth with
  | step node ih =>
      have hchildren : (node.children.map fun child => (child.positions (depth + 1)).length) =
          node.children.map size := List.map_congr_left fun child hmem => ih child hmem (depth + 1)
      rw [positions_eq, List.length_cons, List.length_flatMap, hchildren, size_eq, sizes_eq_sum]

/-- … and as many without them. -/
theorem length_preorder (node : Node) : node.preorder.length = node.size := by
  rw [← map_fst_positions node 0, List.length_map, length_positions]

mutual

/-- How many nodes of a tree stand below each other, at most. -/
def height : Node → Nat
  | sequence items => heightIn items + 1
  | choice alternatives => heightIn alternatives + 1
  | optional item => height item + 1
  | zeroOrMore item => height item + 1
  | oneOrMore item => height item + 1
  | counted item _ => height item + 1
  | group content _ => height content + 1
  | _ => 1

/-- How many nodes stand below each other in one of the trees of a list, at most. -/
def heightIn : List Node → Nat
  | [] => 0
  | node :: nodes => max (height node) (heightIn nodes)

end

/-- A tree is one level higher than its children. -/
theorem height_eq (node : Node) : node.height = heightIn node.children + 1 := by
  cases node <;> simp [height, heightIn, children]

/-- Several trees are as high as the highest of them. -/
theorem heightIn_eq_foldr (nodes : List Node) :
    heightIn nodes = (nodes.map height).foldr max 0 := by
  induction nodes with
  | nil => rfl
  | cons node nodes ih => rw [heightIn, ih, List.map_cons, List.foldr_cons]

/-- The greatest depth among the trees of a list whose roots stand one level below `depth`. -/
theorem depth_addAll_flatMap {nodes : List Node} {depth : Nat}
    (h : ∀ node ∈ nodes, ∀ census : Census,
      (census.addAll (node.positions (depth + 1))).depth = max census.depth (depth + node.height))
    {census : Census} (hdepth : depth ≤ census.depth) :
    (census.addAll (nodes.flatMap (positions (depth + 1)))).depth =
      max census.depth (depth + heightIn nodes) := by
  induction nodes generalizing census with
  | nil =>
      rw [List.flatMap_nil, Census.addAll_nil, heightIn]
      omega
  | cons node nodes ih =>
      obtain ⟨hnode, hnodes⟩ := List.forall_mem_cons.1 h
      have hfirst := hnode census
      rw [List.flatMap_cons, Census.addAll_append, ih hnodes (by omega), hfirst, heightIn]
      omega

/-- Counting the nodes of a tree takes the depth to that of the deepest of them. -/
theorem depth_addAll_positions (node : Node) (depth : Nat) (census : Census) :
    (census.addAll (node.positions (depth + 1))).depth =
      max census.depth (depth + node.height) := by
  induction node using induction_children generalizing depth census with
  | step node ih =>
      have hroot := census.depth_add node.name (depth + 1)
      rw [positions_eq, Census.addAll_cons,
        depth_addAll_flatMap (fun child hmem census => ih child hmem (depth + 1) census)
          (by omega), hroot, height_eq]
      omega

/-! ### Visits -/

/-- A walk on its way: what it has counted, and the nodes still to be visited, each with its
depth. -/
structure Walk where
  /-- What was counted by now. -/
  census : Census
  /-- What is still to be visited. -/
  pending : List (Node × Nat)

/-- The children of a node at the given depth, each with its own depth. -/
def placedChildren (node : Node) (depth : Nat) : List (Node × Nat) :=
  node.children.map fun child => (child, depth + 1)

/-- One visit: any one of the pending nodes is counted, and its children are pending instead.
Where they are put among the pending nodes is left open. -/
inductive Visit : Walk → Walk → Prop where
  | visit {census : Census} {pending others rest : List (Node × Nat)} {node : Node} {depth : Nat} :
      pending.Perm ((node, depth) :: others) → rest.Perm (node.placedChildren depth ++ others) →
        Visit ⟨census, pending⟩ ⟨census.add node.name depth, rest⟩

/-- The nodes at and below some places. -/
def positionsFrom (places : List (Node × Nat)) : List (Node × Nat) :=
  places.flatMap fun place => place.1.positions place.2

/-- The places that are left: a node, its children, and what was left before. -/
theorem positionsFrom_cons (node : Node) (depth : Nat) (places : List (Node × Nat)) :
    positionsFrom ((node, depth) :: places) =
      (node, depth) :: positionsFrom (node.placedChildren depth ++ places) := by
  simp only [positionsFrom, placedChildren, List.flatMap_cons, List.flatMap_append,
    List.flatMap_map, positions_eq depth node, List.cons_append]

namespace Walk

/-- The walk that has the whole of a tree before it. -/
def start (node : Node) : Walk := ⟨{}, [(node, 1)]⟩

/-- What a walk comes to: the nodes at and below the pending ones are counted as well. -/
def total (walk : Walk) : Census := walk.census.addAll (positionsFrom walk.pending)

/-- At the end of a walk nothing is left to add. -/
theorem total_of_nil {walk : Walk} (h : walk.pending = []) : walk.total = walk.census := by
  rw [total, h]
  rfl

end Walk

namespace Visit

variable {walk next : Walk}

/-- **No visit changes what a walk comes to.** -/
theorem total_eq (h : Visit walk next) : next.total = walk.total := by
  obtain @⟨census, pending, others, rest, node, depth, hpending, hrest⟩ := h
  calc (census.add node.name depth).addAll (positionsFrom rest)
      = (census.add node.name depth).addAll
          (positionsFrom (node.placedChildren depth ++ others)) :=
        Census.addAll_perm (hrest.flatMap_right _)
    _ = census.addAll (positionsFrom ((node, depth) :: others)) := by
        rw [positionsFrom_cons, Census.addAll_cons]
    _ = census.addAll (positionsFrom pending) :=
        (Census.addAll_perm (hpending.flatMap_right _)).symm

/-- Each visit leaves one node less to be visited. -/
theorem length_eq (h : Visit walk next) :
    (positionsFrom walk.pending).length = (positionsFrom next.pending).length + 1 := by
  have hnodes : next.total.nodes = walk.total.nodes := congrArg Census.nodes h.total_eq
  have hnext : next.census.nodes = walk.census.nodes + 1 := by cases h; rfl
  rw [Walk.total, Walk.total, Census.nodes_addAll, Census.nodes_addAll] at hnodes
  omega

/-- A walk can go on as long as a node is pending. -/
theorem exists_of_ne_nil (h : walk.pending ≠ []) : ∃ next, Visit walk next := by
  obtain ⟨census, pending⟩ := walk
  obtain ⟨⟨node, depth⟩, others, rfl⟩ := List.exists_cons_of_ne_nil h
  exact ⟨_, .visit (List.Perm.refl _) (List.Perm.refl _)⟩

/-- No walk goes on for ever. -/
theorem wellFounded : WellFounded fun next walk => Visit walk next :=
  Subrelation.wf (fun h => Nat.lt_of_succ_le (length_eq h).ge)
    (measure fun walk : Walk => (positionsFrom walk.pending).length).wf

/-- What a walk comes to is kept by every visit, so by any number of them. -/
theorem total_eq_of_reflTransGen (h : Relation.ReflTransGen Visit walk next) :
    next.total = walk.total := by
  induction h with
  | refl => rfl
  | tail _ hvisit ih => exact hvisit.total_eq.trans ih

end Visit

/-- The walk that takes the first pending node each time comes to what every walk comes to. -/
theorem walk_eq_total (census : Census) (pending : List (Node × Nat)) :
    walk census pending = (Walk.mk census pending).total := by
  fun_induction walk census pending with
  | case1 census => rfl
  | case2 census node depth pending ih =>
      have hvisit : Visit ⟨census, (node, depth) :: pending⟩
          ⟨census.add node.name depth, node.placedChildren depth ++ pending⟩ :=
        .visit (List.Perm.refl _) (List.Perm.refl _)
      exact ih.trans hvisit.total_eq

/-- The census of a tree is what the walk comes to from its start. -/
theorem census_eq_total (node : Node) : node.census = (Walk.start node).total :=
  walk_eq_total {} [(node, 1)]

/-- The census of a tree is that of its nodes with their depths. -/
theorem census_eq_addAll (node : Node) :
    node.census = Census.addAll {} (node.positions 1) := by
  rw [census_eq_total, Walk.total, Walk.start, positionsFrom, List.flatMap_singleton]

/-- A census counts every node once. -/
theorem nodes_census (node : Node) : node.census.nodes = node.size := by
  rw [census_eq_addAll, Census.nodes_addAll, length_positions]
  exact Nat.zero_add _

/-- A census measures how many nodes stand below each other. -/
theorem depth_census (node : Node) : node.census.depth = node.height := by
  rw [census_eq_addAll, depth_addAll_positions]
  simp

/-- The counts by name make up the number of nodes. -/
theorem sum_names_census (node : Node) :
    (node.census.names.map Prod.snd).sum = node.census.nodes := by
  rw [nodes_census, census_eq_addAll, Census.sum_names_addAll, length_positions]
  exact Nat.zero_add _

/-- **Every walk over a tree ends in its census**, in whatever order the nodes are visited: a
walk from the root has either come to its end, with this census, or goes on, and none goes on
for ever.  The census counts the root and what the censuses of its children count, lies one
level deeper than the deepest of them, and holds for every name how many nodes of the tree have
it; these counts add up to all nodes. -/
theorem census_of_every_walk (node : Node) :
    (node.census.nodes = 1 + (node.children.map fun child => child.census.nodes).sum ∧
      node.census.depth = 1 + (node.children.map fun child => child.census.depth).foldr max 0 ∧
      (∀ name, countOf node.census.names name =
        node.preorder.countP fun part => part.name == name) ∧
      (node.census.names.map Prod.snd).sum = node.census.nodes) ∧
    (∀ walk, Relation.ReflTransGen Visit (.start node) walk →
      (walk.pending = [] ∧ walk.census = node.census) ∨ ∃ next, Visit walk next) ∧
    WellFounded fun next walk => Visit walk next := by
  have hnodes : node.census.nodes =
      1 + (node.children.map fun child => child.census.nodes).sum := by
    simp only [nodes_census]
    rw [size_eq, sizes_eq_sum, Nat.add_comm]
  have hdepth : node.census.depth =
      1 + (node.children.map fun child => child.census.depth).foldr max 0 := by
    simp only [depth_census]
    rw [height_eq, heightIn_eq_foldr, Nat.add_comm]
  refine ⟨⟨hnodes, hdepth, count_census node, sum_names_census node⟩, fun walk hwalk => ?_,
    Visit.wellFounded⟩
  -- a walk with nothing left has come to its total, which no visit has changed
  by_cases hpending : walk.pending = []
  · have htotal := Visit.total_eq_of_reflTransGen hwalk
    rw [Walk.total_of_nil hpending, ← census_eq_total] at htotal
    exact .inl ⟨hpending, htotal⟩
  · exact .inr (Visit.exists_of_ne_nil hpending)

end Node
end Pattern
end Railroad
