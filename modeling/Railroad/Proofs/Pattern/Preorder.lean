/-
# The nodes of a tree in preorder

The nodes of a tree are listed from the root, a node before what is below it, and the
children of a node from the left (`Node.preorder`).  So the list of a tree is its root
and the lists of its children one after the other (`Node.preorder_eq`), and the stray
objects of a tree are met in this order (`Node.strays_eq_filterMap`).

What holds of a node whenever it holds of its children holds of every node
(`Node.induction_children`).  The other way round, what goes from every node to its children
goes from a tree to all of its nodes (`Node.forall_mem_preorder`), as being canonical does
(`Node.Canonical.of_mem_children`).
-/

import Railroad.Pattern.Census
import Railroad.Proofs.Pattern.Strays

namespace Railroad
namespace Pattern
namespace Node

/-! ### Induction on the children -/

/-- A tree is no larger than all of a list together. -/
theorem size_le_sizes_of_mem {node : Node} {nodes : List Node} (h : node ∈ nodes) :
    node.size ≤ sizes nodes := by
  obtain ⟨front, back, rfl⟩ := List.append_of_mem h
  rw [sizes_append, sizes]
  omega

/-- A child is smaller than its parent, which carries the induction over trees. -/
theorem size_lt_of_mem_children {node child : Node} (h : child ∈ node.children) :
    child.size < node.size := by
  have hle := size_le_sizes_of_mem h
  rw [size_eq node]
  omega

/-- **Induction on a tree by the children of its nodes.** -/
theorem induction_children {motive : Node → Prop}
    (step : ∀ node, (∀ child ∈ node.children, motive child) → motive node) (node : Node) :
    motive node :=
  step node fun child _hmem => induction_children step child
termination_by node.size
decreasing_by exact size_lt_of_mem_children _hmem

/-! ### The list of the nodes -/

mutual

/-- The nodes of a tree, each before its children. -/
def preorder : Node → List Node
  | sequence items => sequence items :: preorderIn items
  | choice alternatives => choice alternatives :: preorderIn alternatives
  | optional item => optional item :: preorder item
  | zeroOrMore item => zeroOrMore item :: preorder item
  | oneOrMore item => oneOrMore item :: preorder item
  | counted item quantifier => counted item quantifier :: preorder item
  | group content kind => group content kind :: preorder content
  | node => [node]

/-- The nodes of the trees of a list, tree by tree. -/
def preorderIn : List Node → List Node
  | [] => []
  | node :: nodes => preorder node ++ preorderIn nodes

end

/-- The nodes of several trees in preorder: those of one tree after those of the other. -/
theorem preorderIn_eq_flatMap (nodes : List Node) : preorderIn nodes = nodes.flatMap preorder := by
  induction nodes with
  | nil => rfl
  | cons node nodes ih => rw [preorderIn, ih, List.flatMap_cons]

/-- A tree is listed as its root and its children, one after the other. -/
theorem preorder_eq (node : Node) : node.preorder = node :: node.children.flatMap preorder := by
  cases node <;> simp [preorder, children, preorderIn_eq_flatMap]

/-- What goes from every node to its children goes from a tree to all of its nodes. -/
theorem forall_mem_preorder {p : Node → Prop}
    (hchild : ∀ {node child : Node}, p node → child ∈ node.children → p child) {node : Node}
    (h : p node) : ∀ part ∈ node.preorder, p part := by
  induction node using induction_children with
  | step node ih =>
      intro part hpart
      rw [preorder_eq] at hpart
      rcases List.mem_cons.1 hpart with rfl | hpart
      · exact h
      · obtain ⟨child, hmem, hpart⟩ := List.mem_flatMap.1 hpart
        exact ih child hmem (hchild h hmem) part hpart

/-! ### Canonical trees -/

section

variable {inner : Node → Prop} {node child : Node}

/-- Below an item stands its atom, or what a group holds. -/
theorem IsItem.atom_or_content (h : IsItem inner node) (hmem : child ∈ node.children) :
    IsAtom inner child ∨ inner child := by
  cases h with
  | bare h =>
      cases h with
      | group hcontent => exact .inr (List.mem_singleton.1 hmem ▸ hcontent)
      | _ => cases hmem
  | optional h => exact .inl (List.mem_singleton.1 hmem ▸ h)
  | zeroOrMore h => exact .inl (List.mem_singleton.1 hmem ▸ h)
  | oneOrMore h => exact .inl (List.mem_singleton.1 hmem ▸ h)
  | counted h => exact .inl (List.mem_singleton.1 hmem ▸ h)

/-- A child of a sequence is an item, or what a group holds. -/
theorem IsSequence.item_or_content (h : IsSequence inner node) (hmem : child ∈ node.children) :
    IsItem inner child ∨ inner child := by
  cases h with
  | empty => cases hmem
  | item h => exact (h.atom_or_content hmem).imp_left .bare
  | sequence _ hrun => exact .inl (hrun.canonical child hmem)

/-- A child of an alternation is a sequence, or what a group holds. -/
theorem IsAlternation.sequence_or_content (h : IsAlternation inner node)
    (hmem : child ∈ node.children) : IsSequence inner child ∨ inner child := by
  cases h with
  | sequence h => exact (h.item_or_content hmem).imp_left .item
  | choice _ h => exact .inl (h child hmem)

/-- **What stands below a canonical tree is canonical.** -/
theorem Canonical.of_mem_children {g : Nat} (h : Canonical g node)
    (hmem : child ∈ node.children) : ∃ k, Canonical k child := by
  rcases h.sequence_or_content hmem with h | h
  · exact ⟨g, .sequence h⟩
  · cases g with
    | zero => exact h.elim
    | succ g => exact ⟨g, h⟩

/-- The items of a canonical sequence are canonical items. -/
theorem Canonical.isItem_of_mem {g : Nat} {items : List Node} {item : Node}
    (h : Canonical g (.sequence items)) (hmem : item ∈ items) : IsItem (IsContent g) item := by
  cases h with
  | sequence h =>
      cases h with
      | item h =>
          cases h with
          | bare h => cases h
      | sequence _ hrun => exact hrun.canonical item hmem

/-- A canonical class has members. -/
theorem Canonical.members_ne_nil {g : Nat} {items : List ClassItem} {negated : Bool}
    (h : Canonical g (.charClass items negated)) : items ≠ [] := by
  cases h with
  | sequence h =>
      cases h with
      | item h =>
          cases h with
          | bare h =>
              cases h with
              | charClass h => exact h.nonempty

/-- Every node of a tree in the grammar is in the grammar. -/
theorem Canonical.of_mem_preorder {g : Nat} {tree part : Node} (h : Canonical g tree)
    (hmem : part ∈ tree.preorder) : ∃ k, Canonical k part :=
  forall_mem_preorder (p := fun node => ∃ k, Canonical k node)
    (fun ⟨_, h⟩ hchild => h.of_mem_children hchild) ⟨g, h⟩ part hmem

end

/-! ### Stray objects -/

/-- The stray object that a node is, if it is one. -/
def stray? : Node → Option Stray
  | stray object => some object
  | _ => none

/-- The stray objects of a tree: itself, if it is one, and those of its children. -/
theorem strays_eq (node : Node) :
    node.strays = node.stray?.toList ++ node.children.flatMap strays := by
  cases node <;> simp [strays, stray?, children, straysIn_eq_flatMap]

/-- The stray objects of a tree are those among its nodes, in the same order. -/
theorem strays_eq_filterMap (node : Node) : node.strays = node.preorder.filterMap stray? := by
  induction node using induction_children with
  | step node ih =>
      rw [strays_eq, preorder_eq, List.filterMap_cons, List.filterMap_flatMap]
      have hchildren : node.children.flatMap strays =
          node.children.flatMap fun child => child.preorder.filterMap stray? :=
        List.flatMap_congr ih
      rw [hchildren]
      cases node.stray? <;> rfl

end Node
end Pattern
end Railroad
