/-
# Patterns are read part by part

What a part of a pattern is read as does not depend on what stands around it.  Two patterns
one behind the other are read as their two trees joined (`Node.followedBy`): the last
alternative of the first tree runs on into the first alternative of the second, and the
other alternatives stay as they are.  A pattern in parentheses is read as a group around its
tree.

There is one place where the parts do touch: a quantifier at the start of the second
pattern takes a bare atom at the end of the first.  `Node.EndsBare` says when there is one.

Both readings come from `parse_eq_ok_iff`: the joined tree is canonical and has the joined
text (`Node.isAlternation_followedBy`, `Node.text_followedBy`).
-/

import Railroad.Proofs.Pattern.Exactness
import Railroad.Proofs.Pattern.Nesting

namespace Railroad
namespace Pattern
namespace Node

/-! ### The parts of a tree -/

/-- The alternatives of a tree.  A tree that is no choice has one, itself. -/
def asAlternatives : Node → List Node
  | choice alternatives => alternatives
  | node => [node]

/-- The items of a tree in a row.  The empty tree has none, and any other tree that is no
sequence has one, itself. -/
def asItems : Node → List Node
  | empty => []
  | sequence items => items
  | node => [node]

/-- The first alternative of a tree. -/
def firstAlternative (node : Node) : Node := node.asAlternatives.headD empty

/-- The last alternative of a tree. -/
def lastAlternative (node : Node) : Node := node.asAlternatives.getLastD empty

/-- One tree behind another: the last alternative of the first runs on into the first
alternative of the second. -/
def followedBy (first second : Node) : Node :=
  ofAlternatives (first.asAlternatives.dropLast ++
    ofItems (first.lastAlternative.asItems ++ second.firstAlternative.asItems) ::
      second.asAlternatives.tail)

/-- Whether the last alternative of a tree ends in an atom under no quantifier. -/
def EndsBare (node : Node) : Prop :=
  ∃ item, node.lastAlternative.asItems.getLast? = some item ∧ ¬ item.IsQuantified

section

variable {inner : Node → Prop} {node first second : Node} {items others : List Node}

/-- An atom makes a row of one, … -/
theorem IsAtom.asItems_eq (h : IsAtom inner node) : node.asItems = [node] := by
  cases h <;> rfl

/-- … and so does an item. -/
theorem IsItem.asItems_eq (h : IsItem inner node) : node.asItems = [node] := by
  cases h with
  | bare h => exact h.asItems_eq
  | _ => rfl

/-- A canonical sequence is the run of its items. -/
theorem IsSequence.asItems (h : IsSequence inner node) :
    IsRun inner node.asItems ∧ ofItems node.asItems = node := by
  cases h with
  | empty => exact ⟨⟨List.forall_mem_nil _, .nil⟩, rfl⟩
  | item h =>
      rw [h.asItems_eq]
      exact ⟨⟨List.forall_mem_singleton.2 h, .singleton node⟩, rfl⟩
  | sequence hlength h => exact ⟨h, ofItems_of_two_le hlength⟩

/-- A sequence is the only alternative of itself. -/
theorem IsSequence.asAlternatives_eq (h : IsSequence inner node) :
    node.asAlternatives = [node] := by
  cases h with
  | empty => rfl
  | sequence => rfl
  | item h =>
      cases h with
      | bare h => cases h <;> rfl
      | _ => rfl

/-- A canonical alternation is its alternatives, which are canonical sequences. -/
theorem IsAlternation.asAlternatives (h : IsAlternation inner node) :
    node.asAlternatives ≠ [] ∧ (∀ other ∈ node.asAlternatives, IsSequence inner other) ∧
      ofAlternatives node.asAlternatives = node := by
  cases h with
  | sequence h =>
      rw [h.asAlternatives_eq]
      exact ⟨List.cons_ne_nil _ _, List.forall_mem_singleton.2 h, rfl⟩
  | choice hlength h =>
      refine ⟨?_, h, ofAlternatives_of_two_le hlength⟩
      exact List.ne_nil_of_length_pos (Nat.zero_lt_two.trans_le hlength)

/-- There is a first alternative, with the others behind it, … -/
theorem IsAlternation.asAlternatives_eq_cons (h : IsAlternation inner node) :
    node.asAlternatives = node.firstAlternative :: node.asAlternatives.tail := by
  obtain ⟨first, others, e⟩ := List.exists_cons_of_ne_nil h.asAlternatives.1
  rw [firstAlternative, e]
  rfl

/-- … and a last one, with the others in front of it. -/
theorem IsAlternation.asAlternatives_eq_concat (h : IsAlternation inner node) :
    node.asAlternatives = node.asAlternatives.dropLast ++ [node.lastAlternative] := by
  obtain ⟨others, last, e⟩ :=
    (List.eq_nil_or_concat node.asAlternatives).resolve_left h.asAlternatives.1
  rw [List.concat_eq_append] at e
  rw [lastAlternative, e, List.dropLast_concat, List.getLastD_concat]

/-- The first alternative is a sequence, … -/
theorem IsAlternation.firstAlternative (h : IsAlternation inner node) :
    IsSequence inner node.firstAlternative := by
  refine h.asAlternatives.2.1 _ ?_
  rw [h.asAlternatives_eq_cons]
  exact List.mem_cons_self

/-- … and so is the last one. -/
theorem IsAlternation.lastAlternative (h : IsAlternation inner node) :
    IsSequence inner node.lastAlternative := by
  refine h.asAlternatives.2.1 _ ?_
  rw [h.asAlternatives_eq_concat]
  exact List.mem_append_right _ (List.mem_singleton_self _)

/-! ### Joining -/

/-- Two texts between separators, cut within one of them. -/
theorem intercalate_join {α : Type} (sep : List α) (front back : List (List α)) (s t : List α) :
    sep.intercalate (front ++ (s ++ t) :: back) =
      sep.intercalate (front ++ [s]) ++ sep.intercalate (t :: back) := by
  induction front with
  | nil =>
      cases back with
      | nil => simp
      | cons u back => simp [List.intercalate_cons_cons]
  | cons r front ih =>
      have hjoined : front ++ (s ++ t) :: back ≠ [] :=
        List.append_ne_nil_of_right_ne_nil _ (List.cons_ne_nil _ _)
      have hcut : front ++ [s] ≠ [] := List.append_ne_nil_of_right_ne_nil _ (by simp)
      rw [List.cons_append, List.cons_append, List.intercalate_cons_of_ne_nil hjoined, ih,
        List.intercalate_cons_of_ne_nil hcut]
      simp only [List.append_assoc]

/-- The text of a canonical alternation begins with the items of its first alternative. -/
theorem IsAlternation.exists_text_eq (h : IsAlternation inner node) :
    ∃ rest, node.text = (node.firstAlternative.asItems.map text).flatten ++ rest := by
  have hjoin := intercalate_join ['|'] [] (node.asAlternatives.tail.map text)
    node.firstAlternative.text []
  refine ⟨['|'].intercalate ([] :: node.asAlternatives.tail.map text), ?_⟩
  rw [← text_ofItems, h.firstAlternative.asItems.2]
  conv_lhs => rw [← h.asAlternatives.2.2, text_ofAlternatives h.asAlternatives.1,
    h.asAlternatives_eq_cons, List.map_cons]
  simpa using hjoin

/-- Two runs one behind the other are a run unless the first ends in a bare atom and the
second goes on with a quantifier. -/
theorem IsRun.append (h : IsRun inner items) (h' : IsRun inner others) (rest : List Char)
    (hjoin : (∃ item, items.getLast? = some item ∧ ¬ item.IsQuantified) →
      NoQuantifier ((others.map text).flatten ++ rest)) : IsRun inner (items ++ others) := by
  refine ⟨List.forall_mem_append.2 ⟨h.canonical, h'.canonical⟩, h.chain.append h'.chain ?_⟩
  intro item hitem next hnext
  rw [Option.mem_def] at hitem hnext
  by_cases hquantified : item.IsQuantified
  · exact .inl hquantified
  · obtain ⟨others, rfl⟩ := List.head?_eq_some_iff.1 hnext
    have hno := hjoin ⟨item, hitem, hquantified⟩
    rw [List.map_cons, List.flatten_cons, List.append_assoc] at hno
    exact .inr ((noQuantifier_text_iff (h'.canonical next List.mem_cons_self) _).1 hno)

/-- **Two canonical trees are joined to a canonical tree**, unless the first ends in a bare
atom and the text of the second begins with a quantifier. -/
theorem isAlternation_followedBy (h : IsAlternation inner first)
    (h' : IsAlternation inner second) (hjoin : first.EndsBare → NoQuantifier second.text) :
    IsAlternation inner (first.followedBy second) := by
  obtain ⟨rest, htext⟩ := h'.exists_text_eq
  have hrun := h.lastAlternative.asItems.1.append h'.firstAlternative.asItems.1 rest
    fun hbare => htext ▸ hjoin hbare
  refine isAlternation_iff.2 ⟨_, by simp, rfl, fun other hother => ?_⟩
  rcases List.mem_append.1 hother with hother | hother
  · exact h.asAlternatives.2.1 other (List.mem_of_mem_dropLast hother)
  · rcases List.mem_cons.1 hother with rfl | hother
    · exact isSequence_iff.2 ⟨_, rfl, hrun⟩
    · exact h'.asAlternatives.2.1 other (List.mem_of_mem_tail hother)

/-- **Joined trees have the joined text.** -/
theorem text_followedBy (h : IsAlternation inner first) (h' : IsAlternation inner second) :
    (first.followedBy second).text = first.text ++ second.text := by
  have hmiddle : (ofItems (first.lastAlternative.asItems ++
      second.firstAlternative.asItems)).text =
        first.lastAlternative.text ++ second.firstAlternative.text := by
    rw [text_ofItems, List.map_append, List.flatten_append, ← text_ofItems, ← text_ofItems,
      h.lastAlternative.asItems.2, h'.firstAlternative.asItems.2]
  rw [followedBy, text_ofAlternatives (by simp), List.map_append, List.map_cons, hmiddle,
    intercalate_join]
  conv_rhs =>
    rw [← h.asAlternatives.2.2, ← h'.asAlternatives.2.2, text_ofAlternatives h.asAlternatives.1,
      text_ofAlternatives h'.asAlternatives.1, h.asAlternatives_eq_concat,
      h'.asAlternatives_eq_cons, List.map_append, List.map_singleton, List.map_cons]

end

end Node

open Node

/-! ### Patterns -/

/-- **A pattern is read part by part.**  Two patterns one behind the other are read as their
trees joined, unless the first ends in a bare atom and the second begins with a quantifier.
A pattern in which at most 99 groups lie inside each other is read in parentheses as a group
of the kind whose opening stands in front of it; where no opening stands, as in front of the
content of a capturing group, the pattern must not begin like one. -/
theorem parse_append_and_group :
    (∀ p q first second, parse p = .ok first → parse q = .ok second →
      (first.EndsBare → NoQuantifier q.toList) →
        parse (p ++ q) = .ok (first.followedBy second)) ∧
    ∀ p tree kind, parse p = .ok tree → tree.nesting ≤ 99 →
      (kind ≠ .capturing ∨ ¬ HasOpening p.toList) →
        parse ("(" ++ kind.opening ++ p ++ ")") = .ok (.group tree kind) := by
  constructor
  -- both sides are read exactly if their tree is in the grammar and written as they are
  · intro p q first second hp hq hjoin
    obtain ⟨hfirst, hp⟩ := parse_eq_ok_iff.1 hp
    obtain ⟨hsecond, hq⟩ := parse_eq_ok_iff.1 hq
    rw [← hq] at hjoin
    refine parse_eq_ok_iff.2 ⟨isAlternation_followedBy hfirst hsecond hjoin, ?_⟩
    rw [text_followedBy hfirst hsecond, hp, hq, String.toList_append]
  · intro p tree kind hp hnesting hkind
    obtain ⟨htree, hp⟩ := parse_eq_ok_iff.1 hp
    have hcontent : IsContent maxNesting tree := htree.of_nesting_le hnesting
    -- a capturing group has nothing between its bracket and its content, so this must not open a
    -- kind
    have hopens : kind = .capturing → ¬ tree.OpensKind := fun hcapturing => by
      rw [opensKind_iff htree.spelling, hp]
      exact hkind.resolve_left (not_not_intro hcapturing)
    refine parse_eq_ok_iff.2 ⟨.sequence (.item (.bare (.group hcontent hopens))), ?_⟩
    simp [text, hp]

/-- The hypotheses of `parse_append_and_group` are satisfiable: a choice that ends in a
loop, with a literal `?` behind it, and the same choice in a lookahead. -/
theorem parse_append_and_group_choice :
    ∃ first second, parse "a|b*" = .ok first ∧ parse "?(c)|d" = .ok second ∧
      (first.EndsBare → NoQuantifier "?(c)|d".toList) ∧
      parse ("a|b*" ++ "?(c)|d") = .ok (first.followedBy second) ∧
      first.nesting ≤ 99 ∧ GroupKind.lookahead ≠ .capturing ∧
      parse ("(" ++ GroupKind.lookahead.opening ++ "a|b*" ++ ")") =
        .ok (.group first .lookahead) := by
  have hfirst : parse "a|b*" = .ok (.choice [.literal "a", .zeroOrMore (.literal "b")]) := by
    decide +kernel
  have hsecond : parse "?(c)|d" = .ok (.choice [
      .sequence [.literal "?", .group (.literal "c") .capturing], .literal "d"]) := by
    decide +kernel
  -- the first pattern ends under a star, so the second one may begin with a sign
  have hjoin : (Node.choice [.literal "a", .zeroOrMore (.literal "b")]).EndsBare →
      NoQuantifier "?(c)|d".toList := by
    rintro ⟨item, hlast, hbare⟩
    obtain rfl := Option.some.inj hlast
    exact absurd trivial hbare
  exact ⟨_, _, hfirst, hsecond, hjoin, parse_append_and_group.1 _ _ _ _ hfirst hsecond hjoin,
    by decide, by decide,
    parse_append_and_group.2 _ _ _ hfirst (by decide) (.inl (by decide))⟩

end Pattern
end Railroad
