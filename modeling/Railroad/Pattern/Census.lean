/-
# Counting the nodes of a tree

The census of a tree holds the number of its nodes, the depth of its deepest
node, where the root has depth 1, and how many nodes there are of each name.  It
is taken by a walk with a list of the nodes still to be visited, each with its
depth.
-/

import Railroad.Pattern.Node

namespace Railroad
namespace Pattern

/-- Adds one to the count of a name, in a list sorted by name. -/
def tally (name : String) : List (String × Nat) → List (String × Nat)
  | [] => [(name, 1)]
  | (other, count) :: rest =>
    if name = other then (other, count + 1) :: rest
    else if name < other then (name, 1) :: (other, count) :: rest
    else (other, count) :: tally name rest

/-- What a walk over a tree has counted. -/
structure Census where
  /-- How many nodes there are. -/
  nodes : Nat := 0
  /-- How deep the deepest of them lies. -/
  depth : Nat := 0
  /-- The number of nodes of each name that occurs, sorted by name. -/
  names : List (String × Nat) := []
  deriving DecidableEq, Repr

/-- Counts one node at a depth. -/
def Census.add (census : Census) (name : String) (depth : Nat) : Census where
  nodes := census.nodes + 1
  depth := if census.depth < depth then depth else census.depth
  names := tally name census.names

namespace Node

mutual

/-- The number of nodes of a tree. -/
def size : Node → Nat
  | sequence items => sizes items + 1
  | choice alternatives => sizes alternatives + 1
  | optional item => size item + 1
  | zeroOrMore item => size item + 1
  | oneOrMore item => size item + 1
  | counted item _ => size item + 1
  | group content _ => size content + 1
  | _ => 1

/-- The number of nodes of all trees of a list. -/
def sizes : List Node → Nat
  | [] => 0
  | node :: nodes => size node + sizes nodes

end

/-- A node counts for itself and for what is below it. -/
theorem size_eq (node : Node) : node.size = sizes node.children + 1 := by
  cases node <;> simp [size, sizes, children]

theorem sizes_append (xs ys : List Node) : sizes (xs ++ ys) = sizes xs + sizes ys := by
  induction xs with
  | nil => simp [sizes]
  | cons x xs ih => simp [sizes, ih]; omega

/-- Visits the pending nodes and all below them; every pending node comes with
its depth. -/
def walk (census : Census) : List (Node × Nat) → Census
  | [] => census
  | (node, depth) :: pending =>
    walk (census.add node.name depth)
      (node.children.map (fun child => (child, depth + 1)) ++ pending)
termination_by pending => sizes (pending.map Prod.fst)
decreasing_by
  simp only [List.map_append, List.map_map, sizes_append, List.map_cons, sizes, size_eq node]
  have : (Prod.fst ∘ fun child : Node => (child, depth + 1)) = id := rfl
  rw [this, List.map_id]
  omega

/-- The census of a tree. -/
def census (node : Node) : Census := walk {} [(node, 1)]

end Node
end Pattern
end Railroad
