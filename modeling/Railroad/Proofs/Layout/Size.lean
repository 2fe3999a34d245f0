/-
# How large the drawing of a pattern is

A node is written with a few characters of its own, besides those that its children are
written with, and for each of them it draws at most four primitives of its own:

| node | characters | primitives |
| --- | --- | --- |
| place, literal, escape | at least 1 | 1 |
| character class of `n` members | at least `n + 2` | `n + 1` |
| choice of `n + 2` alternatives | `n + 1` | `2 (n + 2)` |
| optional | 1 | 1 |
| zero or more | 1 | 3 |
| one or more | 1 | 2 |
| counted | at least 2 | 1 |
| group | at least 2 | at most 2 |
| sequence, empty | 0 | 0 |

The characters of a tree and the primitives of its drawing are the sums of these over all
nodes (`length_text_eq_sum`, `Draws.length_eq_sum`), so the drawing of a canonical tree is no
larger than four times its text.  A choice of two is where four are needed: `|` stands for two
alternatives, with two connectors each.
-/

import Mathlib.Algebra.BigOperators.Ring.List
import Mathlib.Algebra.Order.BigOperators.Group.List
import Mathlib.Algebra.Order.Ring.Nat
import Railroad.Proofs.Drawing.Exact
import Railroad.Proofs.Layout.Inventory
import Railroad.Proofs.Pattern.Size

namespace Railroad
namespace Layout

open Pattern Drawing

/-! ### Characters -/

/-- How many characters a node is written with, those of its children left out. -/
def ownLength : Node → Nat
  | .sequence _ => 0
  | .choice alternatives => alternatives.length - 1
  | .optional _ => 1
  | .zeroOrMore _ => 1
  | .oneOrMore _ => 1
  | .counted _ quantifier => quantifier.toList.length
  | .group _ kind => kind.opening.toList.length + 2
  | node => node.text.length

/-- A text has the characters of its node and those of its children. -/
theorem length_text (node : Node) :
    node.text.length =
      ownLength node + (node.children.map fun child => child.text.length).sum := by
  cases node with
  | sequence items => simp [ownLength, Node.children, List.length_flatten, Function.comp_def]
  | choice alternatives =>
      cases alternatives with
      | nil => rfl
      | cons first others =>
          -- one bar fewer than there are alternatives
          have hbars := Node.length_intercalate_bar
            (List.cons_ne_nil first.text (others.map Node.text))
          simp only [Node.text_choice, ownLength, Node.children, List.map_cons, List.sum_cons,
            List.length_cons, List.flatten_cons, List.length_append, List.length_flatten,
            List.length_map, List.map_map, Function.comp_def] at hbars ⊢
          omega
  | group content kind =>
      simp only [Node.text, ownLength, Node.children, List.map_cons, List.map_nil, List.sum_cons,
        List.sum_nil, List.cons_append, List.length_cons, List.length_append, List.length_nil]
      omega
  | _ => simp [Node.text, ownLength, Node.children, Nat.add_comm]

/-- The text of a tree is as long as the spellings of its nodes by themselves. -/
theorem length_text_eq_sum (node : Node) :
    node.text.length = (node.preorder.map ownLength).sum := by
  induction node using Node.induction_children with
  | step node ih => rw [length_text, sum_preorder, List.map_congr_left ih]

/-! ### Primitives -/

/-- How many primitives a node draws, those of its children left out. -/
def ownTotal (node : Node) : Nat :=
  ownCount node .box + ownCount node .caption + ownCount node .path + ownCount node .arrow +
    ownCount node .frame

section

variable {α : Type}

/-- Every primitive is of one kind. -/
theorem length_eq_countKind (drawn : List (Primitive α)) :
    drawn.length = countKind .box drawn + countKind .caption drawn + countKind .path drawn +
      countKind .arrow drawn + countKind .frame drawn := by
  induction drawn with
  | nil => rfl
  | cons p drawn ih =>
      simp only [List.length_cons, countKind_cons, ih]
      cases p <;> simp only [Primitive.kind, reduceCtorEq, if_true, if_false] <;> omega

variable [Scalar α] {style : Style α} {node : Node} {cursor finish : Point α}
  {drawn : List (Primitive α)}

/-- A drawing has as many primitives as its nodes by themselves. -/
theorem Draws.length_eq_sum (h : Draws style node cursor drawn finish) :
    drawn.length = (node.preorder.map ownTotal).sum := by
  simp only [length_eq_countKind, h.countKind_eq, ← List.sum_map_add]
  rfl

end

/-! ### Four primitives for a character -/

/-- Every member of a class is spelled with a character at least. -/
theorem length_le_length_membersText {items : List ClassItem} (h : CanonicalMembers items) :
    items.length ≤ (membersText items).length := by
  induction h using CanonicalMembers.induction with
  | nil => exact Nat.le_refl 0
  | literal c items _ _ _ ih =>
      rw [membersText_literal, List.length_cons, List.length_cons]
      omega
  | escape c items _ ih =>
      rw [membersText_escape, List.length_cons, List.length_cons, List.length_cons]
      omega
  | range a b items _ _ _ ih =>
      rw [membersText_range, List.length_cons, List.length_cons, List.length_cons,
        List.length_cons]
      omega

/-- Every member of a canonical class has a character of its own. -/
theorem length_le_length_classText {items : List ClassItem} {negated : Bool}
    (h : CanonicalClass items negated) : items.length ≤ (classText items negated).length := by
  have hmembers : items.length ≤ (membersText items).length := by
    rcases h.body with hbody | ⟨others, rfl, hbody⟩
    · exact length_le_length_membersText hbody
    · exact Nat.succ_le_succ (length_le_length_membersText hbody)
  simp only [classText, List.length_append]
  omega

section

variable {g : Nat} {node : Node}

/-- An atom draws at most four primitives for each character that is its own. -/
theorem ownTotal_le_of_isAtom (h : Node.IsAtom (Node.IsContent g) node) :
    ownTotal node ≤ 4 * ownLength node := by
  cases h with
  | charClass h =>
      -- a box for each member, which is spelled with a character at least, and a caption for the
      -- brackets
      have hmembers := length_le_length_classText h
      simp only [ownTotal, ownLength, ownCount, labelsOf, textsOf, pathsOf, arrowsOf, framesOf,
        Node.text, List.length_cons, List.length_map, List.length_nil]
      omega
  | @group content kind _ _ =>
      -- a frame and at most a caption, for two brackets and the opening
      have hcaption : (textsOf (.group content kind)).length ≤ 1 := by
        rw [textsOf]
        split <;> simp
      simp only [ownTotal, ownLength, ownCount, labelsOf, pathsOf, arrowsOf, framesOf,
        List.length_nil]
      omega
  | _ => simp [ownTotal, ownLength, Node.text]

/-- **A node of a canonical tree draws at most four primitives for a character.** -/
theorem ownTotal_le (h : node.Canonical g) : ownTotal node ≤ 4 * ownLength node := by
  cases h with
  | sequence h =>
      cases h with
      | empty => exact Nat.le_refl 0
      | sequence _ _ => exact Nat.le_refl 0
      | item h =>
          cases h with
          | bare h => exact ownTotal_le_of_isAtom h
          -- one caption for at least two braces
          | counted _ _ =>
              simp only [ownTotal, ownLength, ownCount, labelsOf, textsOf, pathsOf, arrowsOf,
                framesOf, String.toList_ofList, List.length_cons, List.length_nil]
              omega
          | _ => simp [ownTotal, ownLength]
  | choice hlength _ =>
      simp only [ownTotal, ownLength, ownCount, labelsOf, textsOf, pathsOf, arrowsOf, framesOf,
        List.length_nil]
      omega

end

variable {α : Type} [Scalar α] {style : Style α} {node : Node} {cursor finish : Point α}
  {drawn : List (Primitive α)}

/-- **A drawing has at most four primitives for each character of the pattern.** -/
theorem Draws.length_le {g : Nat} (h : Draws style node cursor drawn finish)
    (hcanonical : node.Canonical g) : drawn.length ≤ 4 * node.text.length := by
  rw [h.length_eq_sum, length_text_eq_sum, ← List.sum_map_mul_left]
  refine List.sum_le_sum fun part hpart => ?_
  obtain ⟨k, hk⟩ := hcanonical.of_mem_preorder hpart
  exact ownTotal_le hk

/-- **What a pattern comes to is linear in its length, and as deep as its groups.**  At most
100 groups lie inside each other in the tree of a pattern.  The tree has at most one node more
than twice the characters, and between one level of groups and the next lie four levels of
nodes, so that it has at most 404 levels.  It has a diagram in every style, with at most four
primitives for a character. -/
theorem output_is_linear (style : Style α) {pattern : String} {tree : Node}
    (hparse : parse pattern = .ok tree) :
    tree.nesting ≤ 100 ∧
    tree.census.nodes ≤ 2 * pattern.length + 1 ∧
    tree.census.depth ≤ 4 * (tree.nesting + 1) ∧
    tree.census.depth ≤ 404 ∧
    ∃ drawing, diagram style tree = .ok drawing ∧
      drawing.primitives.length ≤ 4 * pattern.length := by
  obtain ⟨hcanonical, htext⟩ := parse_eq_ok_iff.1 hparse
  -- what was read is in the grammar, and all bounds are bounds of the grammar
  obtain ⟨hsize, hheight, hnesting⟩ := hcanonical.within
  have hlength : tree.text.length = pattern.length := by rw [htext, String.length_toList]
  have hnesting : tree.nesting ≤ 100 := Nat.le_of_lt_succ hnesting
  have hdepth : tree.census.depth ≤ 4 * (tree.nesting + 1) := by
    rw [Node.depth_census]
    omega
  obtain ⟨drawn, finish, hdraws⟩ := exists_draws style (proper_of_parse hparse) (origin style)
  refine ⟨hnesting, ?nodes, hdepth, by omega, .of drawn, hdraws.diagram_eq, ?primitives⟩
  case nodes =>
    rw [Node.nodes_census]
    omega
  case primitives =>
    rw [← hlength]
    exact hdraws.length_le hcanonical

/-- The hypothesis of `output_is_linear` is satisfiable, and the bounds are reached: a bar alone
has three nodes and four primitives, and a loop of a group of alternatives, of which one ends in
a loop, has eight levels when it stands in an alternative itself. -/
theorem output_is_linear_tight :
    (∃ bar drawing, parse "|" = .ok bar ∧ bar.census.nodes = 2 * 1 + 1 ∧
      diagram ({} : Style ℚ) bar = .ok drawing ∧ drawing.primitives.length = 4 * 1 ∧
      drawing.primitives.length ≤ 4 * "|".length) ∧
    ∃ loops, parse "a|b(c|de*)*" = .ok loops ∧ loops.nesting = 1 ∧
      loops.census.depth = 4 * (1 + 1) ∧ loops.census.nodes ≤ 2 * "a|b(c|de*)*".length + 1 := by
  have hbar : parse "|" = .ok (.choice [.empty, .empty]) := by decide +kernel
  have hloops : parse "a|b(c|de*)*" = .ok (.choice [.literal "a", .sequence [.literal "b",
      .zeroOrMore (.group (.choice [.literal "c",
        .sequence [.literal "d", .zeroOrMore (.literal "e")]]) .capturing)]]) := by
    decide +kernel
  obtain ⟨-, -, -, -, drawing, hdrawing, hprimitives⟩ := output_is_linear ({} : Style ℚ) hbar
  obtain ⟨-, hnodes, -⟩ := output_is_linear ({} : Style ℚ) hloops
  -- how many primitives there are does not depend on the proof that there is a drawing
  refine ⟨⟨_, drawing, hbar, by decide +kernel, hdrawing, ?_, hprimitives⟩,
    _, hloops, by decide +kernel, by decide +kernel, hnodes⟩
  have hfour : (diagram ({} : Style ℚ) (.choice [.empty, .empty])).map
      (fun drawing => drawing.primitives.length) = .ok 4 := by decide +kernel
  rw [hdrawing] at hfour
  exact Except.ok.inj hfour

end Layout
end Railroad
