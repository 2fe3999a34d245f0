/-
# How large the tree of a pattern is

Every part of a canonical tree is paid for by the characters it is written with.  With `n`
characters and at most `g` groups inside each other,

| part | nodes, at most | nodes below each other, at most |
| --- | --- | --- |
| atom | `2 n - 1` | `4 g + 1` |
| item | `2 n - 1` | `4 g + 2` |
| sequence | `2 n + 1` | `4 g + 3` |
| alternation | `2 n + 1` | `4 g + 4` |

A sequence of two or more items has a node to spare for each of them, which pays for the
sequence itself; the bars of a choice pay for the choice and for all alternatives but one, empty
ones included.  From one level of groups to the next there are at most a choice, a sequence and
a quantifier.  `IsAtom.within` to `IsAlternation.within` go up through the productions, and
`Canonical.within` is the whole.
-/

import Railroad.Proofs.Pattern.Exactness
import Railroad.Proofs.Pattern.Nesting
import Railroad.Proofs.Pattern.Visits

namespace Railroad
namespace Pattern
namespace Node

/-- Whether a tree has no more nodes than its characters pay for, but for some room, is no
higher than its groups and some levels allow, and has fewer than `g` groups inside each
other. -/
structure Within (g room levels : Nat) (node : Node) : Prop where
  /-- There are at most two nodes for each character. -/
  size_le : node.size + 1 ≤ 2 * node.text.length + room
  /-- Each group adds at most four levels. -/
  height_le : node.height ≤ 4 * node.nesting + levels
  /-- There are fewer groups inside each other than are allowed. -/
  nesting_lt : node.nesting < g

variable {g room levels : Nat} {node : Node}

/-- Bounds may be widened. -/
theorem Within.mono {room' levels' : Nat} (h : Within g room levels node) (hroom : room ≤ room')
    (hlevels : levels ≤ levels') : Within g room' levels' node where
  size_le := h.size_le.trans (Nat.add_le_add_left hroom _)
  height_le := h.height_le.trans (Nat.add_le_add_left hlevels _)
  nesting_lt := h.nesting_lt

/-! ### Lists of trees -/

/-- Trees one after the other are paid for one by one. -/
theorem sizes_add_length_le {nodes : List Node} (h : ∀ node ∈ nodes, Within g room levels node) :
    sizes nodes + nodes.length ≤ 2 * (nodes.map text).flatten.length + room * nodes.length := by
  induction nodes with
  | nil => exact Nat.zero_le _
  | cons node nodes ih =>
      obtain ⟨hnode, hnodes⟩ := List.forall_mem_cons.1 h
      have hsize := hnode.size_le
      have hsizes := ih hnodes
      rw [sizes, List.map_cons, List.flatten_cons, List.length_append, List.length_cons,
        Nat.mul_succ]
      omega

/-- The trees of a list are no higher than the groups of one of them allow. -/
theorem heightIn_le {nodes : List Node} (hg : 0 < g)
    (h : ∀ node ∈ nodes, Within g room levels node) :
    heightIn nodes ≤ 4 * nestingIn nodes + levels ∧ nestingIn nodes < g := by
  induction nodes with
  | nil => exact ⟨Nat.zero_le _, hg⟩
  | cons node nodes ih =>
      obtain ⟨hnode, hnodes⟩ := List.forall_mem_cons.1 h
      obtain ⟨hheight, hnesting⟩ := ih hnodes
      have hheight' := hnode.height_le
      have hnesting' := hnode.nesting_lt
      rw [heightIn, nestingIn]
      omega

/-- Between texts stands one bar less than there are texts. -/
theorem length_intercalate_bar {texts : List (List Char)} (h : texts ≠ []) :
    (['|'].intercalate texts).length + 1 = texts.flatten.length + texts.length := by
  induction texts with
  | nil => exact absurd rfl h
  | cons text texts ih =>
      cases texts with
      | nil => simp
      | cons next texts =>
          have hrest := ih (List.cons_ne_nil _ _)
          rw [List.intercalate_cons_cons, List.flatten_cons, List.length_append,
            List.length_append, List.length_append, List.length_singleton, List.length_cons]
          omega

/-! ### The productions -/

/-- A node that nothing stands below is paid for by one character. -/
theorem within_leaf (hsize : node.size = 1) (hheight : node.height = 1)
    (hnesting : node.nesting = 0) (htext : node.text ≠ []) : Within (g + 1) 0 1 node := by
  have hlength := List.length_pos_iff.2 htext
  exact ⟨by omega, by omega, by omega⟩

/-- A node over another is paid for by one more character. -/
theorem Within.quantified {atom : Node} (h : Within g 0 1 atom) (hsize : node.size = atom.size + 1)
    (hheight : node.height = atom.height + 1) (hnesting : node.nesting = atom.nesting)
    {quantifier : List Char} (htext : node.text = atom.text ++ quantifier)
    (hquantifier : quantifier ≠ []) : Within g 0 2 node := by
  obtain ⟨hsize', hheight', hnesting'⟩ := h
  have hlength := List.length_pos_iff.2 hquantifier
  have htotal := congrArg List.length htext
  rw [List.length_append] at htotal
  exact ⟨by omega, by omega, by omega⟩

section

variable {inner : Node → Prop} (hinner : ∀ content, inner content → Within g 2 4 content)

include hinner

/-- Where a group may hold trees with fewer than `g` groups inside each other, an atom may have
one more. -/
theorem IsAtom.within (h : IsAtom inner node) : Within (g + 1) 0 1 node := by
  cases h with
  | @group content kind hcontent _ =>
      obtain ⟨hsize, hheight, hnesting⟩ := hinner content hcontent
      have hlength : content.text.length + 2 ≤ (Node.group content kind).text.length := by
        simp only [text, List.cons_append, List.length_cons, List.length_append]
        omega
      refine ⟨?_, ?_, Nat.succ_lt_succ hnesting⟩
      · rw [size]
        omega
      · rw [height, nesting]
        omega
  | literal _ => exact within_leaf rfl rfl rfl (by rw [text_literal]; exact List.cons_ne_nil _ _)
  | escape c => exact within_leaf rfl rfl rfl (by rw [text_escape]; exact List.cons_ne_nil _ _)
  | _ => exact within_leaf rfl rfl rfl (List.cons_ne_nil _ _)

/-- An item pays for its nodes as its atom does: a quantifier is one node and one level more,
and at least one character. -/
theorem IsItem.within (h : IsItem inner node) : Within (g + 1) 0 2 node := by
  cases h with
  | bare h => exact (h.within hinner).mono (Nat.le_refl 0) (Nat.le_succ 1)
  | optional h => exact (h.within hinner).quantified rfl rfl rfl rfl (List.cons_ne_nil _ _)
  | zeroOrMore h => exact (h.within hinner).quantified rfl rfl rfl rfl (List.cons_ne_nil _ _)
  | oneOrMore h => exact (h.within hinner).quantified rfl rfl rfl rfl (List.cons_ne_nil _ _)
  | counted h _ =>
      exact (h.within hinner).quantified rfl rfl rfl (text_counted _ _) (List.cons_ne_nil _ _)

/-- A sequence has at most one node more, for the row. -/
theorem IsSequence.within (h : IsSequence inner node) : Within (g + 1) 2 3 node := by
  cases h with
  | empty => exact ⟨Nat.le_refl 2, by decide, Nat.succ_pos g⟩
  | item h => exact (h.within hinner).mono (Nat.zero_le 2) (Nat.le_succ 2)
  | @sequence items hlength hrun =>
      have hitems : ∀ item ∈ items, Within (g + 1) 0 2 item := fun item hitem =>
        (hrun.canonical item hitem).within hinner
      have hsizes := sizes_add_length_le hitems
      obtain ⟨hheight, hnesting⟩ := heightIn_le (Nat.succ_pos g) hitems
      refine ⟨?_, ?_, hnesting⟩
      · rw [size, text_sequence]
        omega
      · rw [height, nesting]
        omega

/-- An alternation has one node more, for which its bars pay. -/
theorem IsAlternation.within (h : IsAlternation inner node) : Within (g + 1) 2 4 node := by
  cases h with
  | sequence h => exact (h.within hinner).mono (Nat.le_refl 2) (Nat.le_succ 3)
  | @choice alternatives hlength h =>
      have hall : ∀ node ∈ alternatives, Within (g + 1) 2 3 node := fun node hnode =>
        (h node hnode).within hinner
      have hsizes := sizes_add_length_le hall
      have hne : alternatives.map text ≠ [] := by
        rw [Ne, List.map_eq_nil_iff]
        rintro rfl
        exact absurd hlength (by decide)
      -- one bar fewer than there are alternatives, and these pay for the choice and their own
      -- room
      have htext := length_intercalate_bar hne
      obtain ⟨hheight, hnesting⟩ := heightIn_le (Nat.succ_pos g) hall
      rw [List.length_map] at htext
      refine ⟨?_, ?_, hnesting⟩
      · rw [size, text_choice]
        omega
      · rw [height, nesting]
        omega

end

/-- What a group of the grammar holds is within the same bounds. -/
theorem IsContent.within (h : IsContent g node) : Within g 2 4 node := by
  induction g generalizing node with
  | zero => exact h.elim
  | succ g ih => exact IsAlternation.within (fun _ => ih) h

/-- **A canonical tree is paid for by its characters.** -/
theorem Canonical.within (h : Canonical g node) : Within (g + 1) 2 4 node :=
  IsAlternation.within (fun _ => IsContent.within) h

end Node
end Pattern
end Railroad
