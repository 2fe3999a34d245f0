/-
# Blank trees

A tree is blank when there is nothing in it but empty trees in rows.  By hand many such
trees can be made, but only one of them is the tree of a pattern, and it is that of the
empty pattern (`isBlank_iff_of_parse`): a canonical sequence has items, and every item has
an atom.
-/

import Railroad.Proofs.Pattern.Exactness

namespace Railroad
namespace Pattern
namespace Node

/-- Trees of nothing but empty trees in rows. -/
inductive IsBlank : Node → Prop where
  | empty : IsBlank .empty
  | sequence {items : List Node} : (∀ item ∈ items, IsBlank item) → IsBlank (.sequence items)
  | choice : IsBlank (.choice [])

/-- A row is blank if all its items are. -/
theorem isBlank_sequence_iff {items : List Node} :
    (sequence items).IsBlank ↔ ∀ item ∈ items, item.IsBlank := by
  constructor
  · rintro ⟨⟩
    assumption
  · exact .sequence

/-- A row is blank if its first item is and the row of the others is. -/
theorem isBlank_cons_iff {item : Node} {items : List Node} :
    (sequence (item :: items)).IsBlank ↔ item.IsBlank ∧ (sequence items).IsBlank := by
  rw [isBlank_sequence_iff, isBlank_sequence_iff, List.forall_mem_cons]

/-- A choice is never blank, unless it has no alternatives. -/
theorem isBlank_choice_iff {alternatives : List Node} :
    (choice alternatives).IsBlank ↔ alternatives = [] := by
  constructor
  · rintro ⟨⟩
    rfl
  · rintro rfl
    exact .choice

variable {inner : Node → Prop} {node : Node}

/-- An atom is drawn, … -/
theorem IsAtom.not_isBlank (h : IsAtom inner node) : ¬ node.IsBlank := by
  intro blank
  cases h <;> cases blank

/-- … and so is an item: a quantifier has an atom under it. -/
theorem IsItem.not_isBlank (h : IsItem inner node) : ¬ node.IsBlank := by
  cases h with
  | bare hatom => exact hatom.not_isBlank
  | optional _ => rintro ⟨⟩
  | zeroOrMore _ => rintro ⟨⟩
  | oneOrMore _ => rintro ⟨⟩
  | counted _ _ => rintro ⟨⟩

/-- The only blank sequence of the grammar is the empty one. -/
theorem IsSequence.eq_empty (h : IsSequence inner node) (blank : node.IsBlank) :
    node = .empty := by
  cases h with
  | empty => rfl
  | item hitem => exact absurd blank hitem.not_isBlank
  | sequence hlength hrun =>
      obtain ⟨item, hmem⟩ := List.exists_mem_of_length_pos (Nat.zero_lt_two.trans_le hlength)
      exact absurd (isBlank_sequence_iff.1 blank item hmem) (hrun.canonical item hmem).not_isBlank

/-- Only one canonical tree is blank. -/
theorem Canonical.eq_empty {g : Nat} (h : node.Canonical g) (blank : node.IsBlank) :
    node = .empty := by
  cases h with
  | sequence hsequence => exact hsequence.eq_empty blank
  | choice hlength _ =>
      rw [isBlank_choice_iff.1 blank] at hlength
      exact absurd hlength (by decide)

end Node

/-- **The tree of a pattern is blank only for the empty pattern.** -/
theorem isBlank_iff_of_parse {pattern : String} {tree : Node} (h : parse pattern = .ok tree) :
    tree.IsBlank ↔ pattern = "" := by
  constructor
  · intro blank
    obtain ⟨hcanonical, htext⟩ := parse_eq_ok_iff.1 h
    rw [hcanonical.eq_empty blank] at htext
    exact String.toList_eq_nil_iff.1 htext.symm
  · rintro rfl
    have hempty : parse "" = .ok .empty := by decide +kernel
    rw [hempty] at h
    obtain rfl := Except.ok.inj h
    exact .empty

end Pattern
end Railroad
