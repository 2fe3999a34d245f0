/-
# Reading and writing a pattern

A pattern that is read is written back as it was, character for character
(`toPattern_of_parse`).  The other way round, a tree is read back from what it is
written as exactly when it is canonical (`exists_pattern_iff_canonical`): the
canonical trees are the trees of patterns.

Both follow from `parse_eq_ok_iff`: the trees that are read are the canonical
ones, each from its own text.
-/

import Railroad.Proofs.Pattern.Exactness

namespace Railroad
namespace Pattern

open Node

/-- A canonical tree is written as its text. -/
theorem Node.Canonical.toPattern {g : Nat} {tree : Node} (h : tree.Canonical g) :
    tree.toPattern = .ok (String.ofList tree.text) := by
  rw [Node.toPattern, h.spelling]
  rfl

/-- **Nothing in a pattern is lost.**  What was read is written back character for
character, and writing does not fail. -/
theorem toPattern_of_parse {pattern : String} {tree : Node} (h : parse pattern = .ok tree) :
    tree.toPattern = .ok pattern := by
  obtain ⟨hc, ht⟩ := parse_eq_ok_iff.1 h
  rw [hc.toPattern, ht, String.ofList_toList]

/-- The hypothesis of `toPattern_of_parse` is satisfiable: a pattern with a class that
holds `]` and a dash, an open-ended count, an escape, an empty alternative and an
opening of no kind. -/
theorem toPattern_of_parse_mixed :
    ∃ tree, parse "(?:[]a-z-]{2,}|\\d+|)(?P)" = .ok tree ∧
      tree.toPattern = .ok "(?:[]a-z-]{2,}|\\d+|)(?P)" := by
  have h : parse "(?:[]a-z-]{2,}|\\d+|)(?P)" = .ok (.sequence [
      .group (.choice [
        .counted (.charClass [.literal "]", .range "a" "z", .literal "-"] false) "{2,}",
        .oneOrMore (.escape "\\d"), .empty]) .nonCapturing,
      .group (.sequence [.literal "?", .literal "P"]) .capturing]) := by decide +kernel
  exact ⟨_, h, toPattern_of_parse h⟩

/-- **The canonical trees are the trees of patterns.**  A tree is written, and read back
as it was, exactly when it is canonical with at most 100 groups inside each other. -/
theorem exists_pattern_iff_canonical (tree : Node) :
    (∃ pattern, tree.toPattern = .ok pattern ∧ parse pattern = .ok tree) ↔
      tree.Canonical 100 := by
  constructor
  · rintro ⟨pattern, -, h⟩
    exact (parse_eq_ok_iff.1 h).1
  · intro h
    refine ⟨String.ofList tree.text, h.toPattern, parse_eq_ok_iff.2 ⟨h, ?_⟩⟩
    rw [String.toList_ofList]

end Pattern
end Railroad
