/-
# A census counts the nodes of each name

The walk of a census visits the nodes of a tree in an order of its own, with the nodes
still to be visited on a list.  The counts do not depend on that order: how often a name
is counted is how many nodes of that name the tree has (`Node.count_census`).

A name is looked up in the sorted list of counts, where each name that occurs stands
once; so a count is changed by the nodes of its own name only (`countOf_tally`).
-/

import Railroad.Proofs.Pattern.Preorder

namespace Railroad
namespace Pattern

/-! ### Lists of counts -/

/-- The count of a name in a list of counts; a name that is not listed has none. -/
def countOf (names : List (String × Nat)) (name : String) : Nat := (names.lookup name).getD 0

/-- Whether a list of counts is sorted by name, with each name once. -/
def SortedByName (names : List (String × Nat)) : Prop :=
  names.Pairwise fun entry later => entry.1 < later.1

variable {names rest : List (String × Nat)} {name other : String} {count : Nat}

/-- The first count is that of its name, … -/
theorem countOf_cons_self : countOf ((name, count) :: rest) name = count := by
  simp [countOf]

/-- … and tells nothing of other names. -/
theorem countOf_cons_of_ne (h : other ≠ name) :
    countOf ((name, count) :: rest) other = countOf rest other := by
  rw [countOf, List.lookup_cons, beq_false_of_ne h]
  rfl

/-- A name in front of all that are listed is not listed. -/
theorem countOf_eq_zero (h : ∀ entry ∈ names, name < entry.1) : countOf names name = 0 := by
  have hnone : names.lookup name = none := List.lookup_eq_none_iff.2 fun entry hmem =>
    bne_iff_ne.2 fun heq => String.lt_irrefl _ (heq ▸ h entry hmem)
  rw [countOf, hnone]
  rfl

/-- Of two different names one comes first. -/
theorem lt_of_not_lt_of_ne (h : ¬ name < other) (hne : name ≠ other) : other < name := by
  by_contra hlt
  exact hne (String.le_antisymm (String.not_lt.1 hlt) (String.not_lt.1 h))

/-- A name is listed after a count if it was before, or if it is the one counted. -/
theorem fst_of_mem_tally {entry : String × Nat} (h : entry ∈ tally name names) :
    entry.1 = name ∨ ∃ listed ∈ names, listed.1 = entry.1 := by
  -- the name is new at the end, counted where it is, new in front, or further back
  fun_induction tally name names with
  | case1 => exact .inl (congrArg Prod.fst (List.mem_singleton.1 h))
  | case2 count rest =>
      rcases List.mem_cons.1 h with rfl | hrest
      · exact .inl rfl
      · exact .inr ⟨entry, List.mem_cons_of_mem _ hrest, rfl⟩
  | case3 other count rest hne hlt =>
      rcases List.mem_cons.1 h with rfl | hrest
      · exact .inl rfl
      · exact .inr ⟨entry, hrest, rfl⟩
  | case4 other count rest hne hlt ih =>
      rcases List.mem_cons.1 h with rfl | hrest
      · exact .inr ⟨_, List.mem_cons_self .., rfl⟩
      · rcases ih hrest with heq | ⟨listed, hlisted, heq⟩
        · exact .inl heq
        · exact .inr ⟨listed, List.mem_cons_of_mem _ hlisted, heq⟩

/-- Counting keeps a list sorted. -/
theorem SortedByName.tally (h : SortedByName names) (name : String) :
    SortedByName (Pattern.tally name names) := by
  fun_induction Pattern.tally name names with
  | case1 => exact List.pairwise_singleton _ _
  | case2 count rest =>
      obtain ⟨hfirst, hrest⟩ := List.pairwise_cons.1 h
      exact List.pairwise_cons.2 ⟨hfirst, hrest⟩
  | case3 other count rest hne hlt =>
      obtain ⟨hfirst, hrest⟩ := List.pairwise_cons.1 h
      exact List.pairwise_cons.2 ⟨List.forall_mem_cons.2
        ⟨hlt, fun entry hmem => String.lt_trans hlt (hfirst entry hmem)⟩, h⟩
  -- what is counted further back comes behind the first name
  | case4 other count rest hne hlt ih =>
      obtain ⟨hfirst, hrest⟩ := List.pairwise_cons.1 h
      refine List.pairwise_cons.2 ⟨fun entry hmem => ?_, ih hrest⟩
      rcases fst_of_mem_tally hmem with heq | ⟨listed, hlisted, heq⟩
      · rw [heq]
        exact lt_of_not_lt_of_ne hlt hne
      · rw [← heq]
        exact hfirst listed hlisted

/-- **Counting a name changes the count of that name alone.** -/
theorem countOf_tally (h : SortedByName names) (name other : String) :
    countOf (tally name names) other = countOf names other + if name = other then 1 else 0 := by
  fun_induction tally name names with
  | case1 =>
      by_cases heq : name = other
      · subst heq
        rw [countOf_cons_self, if_pos rfl]
        rfl
      · rw [countOf_cons_of_ne (Ne.symm heq), if_neg heq]
        rfl
  | case2 count rest =>
      by_cases heq : name = other
      · subst heq
        rw [countOf_cons_self, countOf_cons_self, if_pos rfl]
      · rw [countOf_cons_of_ne (Ne.symm heq), countOf_cons_of_ne (Ne.symm heq), if_neg heq]
        rfl
  -- a name in front of all that are listed has not been counted before
  | case3 first count rest hne hlt =>
      by_cases heq : name = other
      · subst heq
        have hfirst := (List.pairwise_cons.1 h).1
        have hzero : countOf ((first, count) :: rest) name = 0 :=
          countOf_eq_zero (List.forall_mem_cons.2
            ⟨hlt, fun entry hmem => String.lt_trans hlt (hfirst entry hmem)⟩)
        rw [countOf_cons_self, hzero, if_pos rfl]
      · rw [countOf_cons_of_ne (Ne.symm heq), if_neg heq]
        rfl
  -- further back only the first count is passed over
  | case4 first count rest hne hlt ih =>
      by_cases heq : other = first
      · subst heq
        rw [countOf_cons_self, countOf_cons_self, if_neg hne]
        rfl
      · rw [countOf_cons_of_ne heq, countOf_cons_of_ne heq]
        exact ih (List.pairwise_cons.1 h).2

/-! ### The walk -/

namespace Node

/-- How many nodes of a name there are in the trees of a list. -/
def countIn (nodes : List Node) (name : String) : Nat :=
  (nodes.flatMap preorder).countP fun node => node.name == name

/-- The nodes of a name in some trees: the first node, and its children with the others. -/
theorem countIn_cons (node : Node) (nodes : List Node) (name : String) :
    countIn (node :: nodes) name =
      (if node.name = name then 1 else 0) + countIn (node.children ++ nodes) name := by
  simp only [countIn, List.flatMap_cons, List.flatMap_append, preorder_eq node, List.cons_append,
    List.countP_cons, beq_iff_eq]
  exact Nat.add_comm _ _

/-- What a walk adds to a count is the number of nodes of that name that are pending or
below a pending node. -/
theorem count_walk {census : Census} (h : SortedByName census.names)
    (pending : List (Node × Nat)) (name : String) :
    countOf (walk census pending).names name =
      countOf census.names name + countIn (pending.map Prod.fst) name := by
  fun_induction walk census pending with
  | case1 census => rfl
  | case2 census node depth pending ih =>
      have hchildren : (node.children.map fun child => (child, depth + 1)).map Prod.fst =
          node.children := (List.map_map ..).trans (List.map_id _)
      have hnode := countOf_tally h node.name name
      rw [ih (h.tally _), List.map_append, hchildren, List.map_cons, countIn_cons, Census.add,
        hnode, Nat.add_assoc]

/-- **A census counts every node of a tree under its name.** -/
theorem count_census (node : Node) (name : String) :
    countOf node.census.names name = node.preorder.countP fun other => other.name == name := by
  have hempty : SortedByName ({} : Census).names := List.Pairwise.nil
  have hzero : countOf ({} : Census).names name = 0 := rfl
  rw [census, count_walk hempty, hzero, Nat.zero_add, List.map_singleton, countIn,
    List.flatMap_singleton]

end Node
end Pattern
end Railroad
