/-
# Trees without stray objects

A tree is proper when no stray object stands anywhere in it.  The stray objects of
a tree are listed in the order in which a walk through the tree meets them, a node
before its children and the children from the left.

A tree with a spelling is proper (`Node.proper_of_spelling`), so every tree that was
read from a pattern is (`proper_of_parse`).
-/

import Railroad.Proofs.Pattern.RoundTrip

namespace Railroad
namespace Pattern
namespace Node

mutual

/-- The stray objects of a tree, from the left. -/
def strays : Node → List Stray
  | sequence items => straysIn items
  | choice alternatives => straysIn alternatives
  | optional item => strays item
  | zeroOrMore item => strays item
  | oneOrMore item => strays item
  | counted item _ => strays item
  | group content _ => strays content
  | stray object => [object]
  | _ => []

/-- The stray objects of the trees of a list, tree by tree. -/
def straysIn : List Node → List Stray
  | [] => []
  | node :: nodes => strays node ++ straysIn nodes

end

/-- A tree is proper when it holds no stray object. -/
def Proper (node : Node) : Prop := node.strays = []

instance (node : Node) : Decidable node.Proper := inferInstanceAs (Decidable (node.strays = []))

/-- The stray objects of several trees, those of one behind those of the other. -/
theorem straysIn_eq_flatMap (nodes : List Node) : straysIn nodes = nodes.flatMap strays := by
  induction nodes with
  | nil => rfl
  | cons node nodes ih => rw [straysIn, ih, List.flatMap_cons]

/-! ### Proper trees by their shape -/

section

variable {item content : Node} {items alternatives : List Node}

/-- Trees have no stray objects if none of them has any. -/
theorem straysIn_eq_nil_iff : straysIn items = [] ↔ ∀ item ∈ items, item.Proper := by
  rw [straysIn_eq_flatMap, List.flatMap_eq_nil_iff]
  exact Iff.rfl

@[simp] theorem proper_sequence_iff :
    (sequence items).Proper ↔ ∀ item ∈ items, item.Proper := straysIn_eq_nil_iff

@[simp] theorem proper_choice_iff :
    (choice alternatives).Proper ↔ ∀ node ∈ alternatives, node.Proper := straysIn_eq_nil_iff

@[simp] theorem proper_optional_iff : (optional item).Proper ↔ item.Proper := Iff.rfl

@[simp] theorem proper_zeroOrMore_iff : (zeroOrMore item).Proper ↔ item.Proper := Iff.rfl

@[simp] theorem proper_oneOrMore_iff : (oneOrMore item).Proper ↔ item.Proper := Iff.rfl

@[simp] theorem proper_counted_iff {quantifier : String} :
    (counted item quantifier).Proper ↔ item.Proper := Iff.rfl

@[simp] theorem proper_group_iff {kind : GroupKind} :
    (group content kind).Proper ↔ content.Proper := Iff.rfl

theorem not_proper_stray (object : Stray) : ¬ (stray object).Proper := List.cons_ne_nil object []

/-- What stands below a proper tree is proper. -/
theorem Proper.of_mem_children {node child : Node} (h : node.Proper)
    (hmem : child ∈ node.children) : child.Proper := by
  cases node with
  | sequence items => exact proper_sequence_iff.1 h child hmem
  | choice alternatives => exact proper_choice_iff.1 h child hmem
  | optional item => exact List.mem_singleton.1 hmem ▸ proper_optional_iff.1 h
  | zeroOrMore item => exact List.mem_singleton.1 hmem ▸ proper_zeroOrMore_iff.1 h
  | oneOrMore item => exact List.mem_singleton.1 hmem ▸ proper_oneOrMore_iff.1 h
  | counted item quantifier => exact List.mem_singleton.1 hmem ▸ proper_counted_iff.1 h
  | group content kind => exact List.mem_singleton.1 hmem ▸ proper_group_iff.1 h
  | _ => cases hmem

end

/-! ### Trees with a spelling -/

mutual

/-- A tree that can be written as a pattern is proper. -/
theorem proper_of_spelling : ∀ {node : Node} {cs : List Char}, node.spelling = .ok cs → node.Proper
  | literal _, _, _ => rfl
  | escape _, _, _ => rfl
  | anyChar, _, _ => rfl
  | anchorStart, _, _ => rfl
  | anchorEnd, _, _ => rfl
  | charClass _ _, _, _ => rfl
  -- a tree is spelled only if all its parts are
  | sequence items, _, h => by
      obtain ⟨ts, hts, -⟩ := map_eq_ok h
      exact proper_sequence_iff.2 (proper_of_spellings hts)
  | choice alternatives, _, h => by
      obtain ⟨ts, hts, -⟩ := map_eq_ok h
      exact proper_choice_iff.2 (proper_of_spellings hts)
  | optional item, _, h => by
      obtain ⟨t, ht, -⟩ := map_eq_ok h
      exact proper_optional_iff.2 (proper_of_spelling ht)
  | zeroOrMore item, _, h => by
      obtain ⟨t, ht, -⟩ := map_eq_ok h
      exact proper_zeroOrMore_iff.2 (proper_of_spelling ht)
  | oneOrMore item, _, h => by
      obtain ⟨t, ht, -⟩ := map_eq_ok h
      exact proper_oneOrMore_iff.2 (proper_of_spelling ht)
  | counted item _, _, h => by
      obtain ⟨t, ht, -⟩ := map_eq_ok h
      exact proper_counted_iff.2 (proper_of_spelling ht)
  | group content _, _, h => by
      obtain ⟨t, ht, -⟩ := map_eq_ok h
      exact proper_group_iff.2 (proper_of_spelling ht)
  | empty, _, _ => rfl
  | stray _, _, h => by cases h

/-- Trees that can be spelled are proper. -/
theorem proper_of_spellings :
    ∀ {nodes : List Node} {ts : List (List Char)}, spellings nodes = .ok ts →
      ∀ node ∈ nodes, node.Proper
  | [], _, _ => fun _ hmem => absurd hmem List.not_mem_nil
  | node :: nodes, _, h => by
      rw [spellings] at h
      split at h
      · cases h
      · rename_i t ht
        obtain ⟨ts, hts, -⟩ := map_eq_ok h
        exact List.forall_mem_cons.2 ⟨proper_of_spelling ht, proper_of_spellings hts⟩

end

end Node

/-- The tree of a pattern is proper. -/
theorem proper_of_parse {pattern : String} {tree : Node} (h : parse pattern = .ok tree) :
    tree.Proper :=
  Node.proper_of_spelling (parse_eq_ok_iff.1 h).1.spelling

end Pattern
end Railroad
