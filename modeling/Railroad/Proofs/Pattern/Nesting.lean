/-
# How deep the groups of a tree lie inside each other

`Node.nesting` is the greatest number of groups that lie inside each other in a tree.  How
many groups may be opened matters to a tree only through it: a canonical tree is canonical
for any number of groups that is no less (`Node.Canonical.of_nesting_le`).

A group inside a tree holds a tree of less nesting.  So what groups may hold can be replaced
for the trees of less nesting alone, and this goes up through the productions, from atoms to
alternations (`Node.IsAtom.imp` to `Node.IsAlternation.imp`).
-/

import Railroad.Proofs.Pattern.Canonical

namespace Railroad
namespace Pattern
namespace Node

mutual

/-- How many groups of a tree lie inside each other, at most. -/
def nesting : Node → Nat
  | sequence items => nestingIn items
  | choice alternatives => nestingIn alternatives
  | optional item => nesting item
  | zeroOrMore item => nesting item
  | oneOrMore item => nesting item
  | counted item _ => nesting item
  | group content _ => nesting content + 1
  | _ => 0

/-- How many groups lie inside each other in one of the trees of a list, at most. -/
def nestingIn : List Node → Nat
  | [] => 0
  | node :: nodes => max (nesting node) (nestingIn nodes)

end

/-- No tree is nested deeper than all of a list together. -/
theorem nesting_le_nestingIn {node : Node} {nodes : List Node} (h : node ∈ nodes) :
    node.nesting ≤ nestingIn nodes := by
  induction nodes with
  | nil => cases h
  | cons first nodes ih =>
      rw [nestingIn]
      rcases List.mem_cons.1 h with rfl | h
      · exact Nat.le_max_left _ _
      · exact (ih h).trans (Nat.le_max_right _ _)

section

variable {inner inner' : Node → Prop} {node : Node}

/-- An atom stays one if more contents of groups are allowed, as far as it is nested. -/
theorem IsAtom.imp (h : IsAtom inner node)
    (himp : ∀ content, content.nesting < node.nesting → inner content → inner' content) :
    IsAtom inner' node := by
  cases h with
  | anyChar => exact .anyChar
  | anchorStart => exact .anchorStart
  | anchorEnd => exact .anchorEnd
  | literal hc => exact .literal hc
  | escape c => exact .escape c
  | charClass hclass => exact .charClass hclass
  | @group content kind hcontent hkind =>
      have hless : content.nesting < (Node.group content kind).nesting := by
        rw [nesting]
        exact Nat.lt_succ_self _
      exact .group (himp content hless hcontent) hkind

/-- So does an item, … -/
theorem IsItem.imp (h : IsItem inner node)
    (himp : ∀ content, content.nesting < node.nesting → inner content → inner' content) :
    IsItem inner' node := by
  cases h with
  | bare h => exact .bare (h.imp himp)
  | optional h => exact .optional (h.imp himp)
  | zeroOrMore h => exact .zeroOrMore (h.imp himp)
  | oneOrMore h => exact .oneOrMore (h.imp himp)
  | counted h hbody => exact .counted (h.imp himp) hbody

/-- … so does a sequence, … -/
theorem IsSequence.imp (h : IsSequence inner node)
    (himp : ∀ content, content.nesting < node.nesting → inner content → inner' content) :
    IsSequence inner' node := by
  cases h with
  | empty => exact .empty
  | item h => exact .item (h.imp himp)
  | sequence hlength h =>
      refine .sequence hlength ⟨fun item hitem => (h.canonical item hitem).imp ?_, h.chain⟩
      exact fun content hless => himp content (hless.trans_le (nesting_le_nestingIn hitem))

/-- … and so does an alternation. -/
theorem IsAlternation.imp (h : IsAlternation inner node)
    (himp : ∀ content, content.nesting < node.nesting → inner content → inner' content) :
    IsAlternation inner' node := by
  cases h with
  | sequence h => exact .sequence (h.imp himp)
  | choice hlength h =>
      refine .choice hlength fun other hother => (h other hother).imp ?_
      exact fun content hless => himp content (hless.trans_le (nesting_le_nestingIn hother))

end

/-- **A canonical tree needs no more groups than lie inside each other in it.** -/
theorem Canonical.of_nesting_le {g k : Nat} {node : Node} (h : Canonical g node)
    (hk : node.nesting ≤ k) : Canonical k node := by
  induction g generalizing k node with
  | zero => exact h.imp fun _ _ hcontent => hcontent.elim
  | succ g ih =>
      refine h.imp fun content hless hcontent => ?_
      -- a group is left to be opened, since this one is part of the nesting
      obtain ⟨k, rfl⟩ := Nat.exists_eq_succ_of_ne_zero (Nat.ne_zero_of_lt (hless.trans_le hk))
      exact ih hcontent (Nat.le_of_lt_succ (hless.trans_le hk))

end Node
end Pattern
end Railroad
