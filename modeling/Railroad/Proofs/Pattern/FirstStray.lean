/-
# The stray object that is reported

A walk through a tree that stops at the first stray object reports that object, and a
walk that meets none comes to its end.  `Reports strays outcome` says this of the outcome
of a walk in which `strays` stand, in order.  It is kept when an outcome is worked on, and
when one walk follows another.

Writing a tree as a pattern is such a walk (`Node.reports_spelling`).
-/

import Railroad.Proofs.Pattern.Preorder

namespace Railroad
namespace Pattern

variable {β γ : Type} {strays : List Stray} {object : Stray}

/-- Whether an outcome reports the first of some stray objects, if there is one. -/
def Reports (strays : List Stray) : Except Stray β → Prop
  | .ok _ => strays = []
  | .error object => strays.head? = some object

namespace Reports

theorem ok (value : β) : Reports [] (.ok value) := rfl

theorem error (object : Stray) : Reports [object] (.error object : Except Stray β) := rfl

/-- What is reported is the first of the stray objects, and nothing else. -/
theorem error_iff {outcome : Except Stray β} (h : Reports strays outcome) :
    outcome = .error object ↔ strays.head? = some object := by
  cases outcome with
  | ok value =>
      obtain rfl : strays = [] := h
      exact iff_of_false (by simp) (by simp)
  | error first =>
      have hfirst : strays.head? = some first := h
      rw [hfirst, Option.some_inj, Except.error.injEq]

/-- What is done with a value does not change what is reported. -/
theorem map {outcome : Except Stray β} (h : Reports strays outcome) (f : β → γ) :
    Reports strays (outcome.map f) := by
  cases outcome with
  | ok value => exact h
  | error object => exact h

/-- A walk that has met a stray object reports no later one. -/
theorem append_error (h : Reports strays (.error object : Except Stray β)) (others : List Stray) :
    Reports (strays ++ others) (.error object : Except Stray γ) := by
  have hfirst : strays.head? = some object := h
  rw [Reports, List.head?_append, hfirst]
  rfl

/-- A walk that has met none reports the first that the next walk meets. -/
theorem append_ok {value : β} {others : List Stray} {next : Except Stray γ}
    (h : Reports strays (.ok value)) (hnext : Reports others next) :
    Reports (strays ++ others) next := by
  obtain rfl : strays = [] := h
  exact hnext

end Reports

namespace Node

mutual

/-- **Writing a tree reports its first stray object.** -/
theorem reports_spelling : ∀ node : Node, Reports node.strays node.spelling
  | literal _ => .ok _
  | escape _ => .ok _
  | anyChar => .ok _
  | anchorStart => .ok _
  | anchorEnd => .ok _
  | charClass _ _ => .ok _
  -- what is written around or between parts is no stray object
  | sequence items => (reports_spellings items).map _
  | choice alternatives => (reports_spellings alternatives).map _
  | optional item => (reports_spelling item).map _
  | zeroOrMore item => (reports_spelling item).map _
  | oneOrMore item => (reports_spelling item).map _
  | counted item _ => (reports_spelling item).map _
  | group content _ => (reports_spelling content).map _
  | empty => .ok _
  | stray object => .error object

/-- Writing several trees reports the first stray object of all of them. -/
theorem reports_spellings : ∀ nodes : List Node, Reports (straysIn nodes) (spellings nodes)
  | [] => .ok _
  | node :: nodes => by
      have hnode := reports_spelling node
      have hnodes := reports_spellings nodes
      rw [straysIn, spellings]
      cases hspelling : node.spelling with
      | error object =>
          rw [hspelling] at hnode
          exact hnode.append_error _
      | ok text =>
          rw [hspelling] at hnode
          exact hnode.append_ok (hnodes.map _)

end

/-- The first stray object of a tree is the first among its nodes. -/
theorem head?_strays (node : Node) : node.strays.head? = node.preorder.findSome? stray? := by
  rw [strays_eq_filterMap, List.head?_filterMap]

/-- A tree has no pattern exactly if it has a stray object, and the first one is why. -/
theorem toPattern_eq_error_iff {node : Node} {object : Stray} :
    node.toPattern = .error object ↔ node.preorder.findSome? stray? = some object := by
  rw [toPattern, ((reports_spelling node).map _).error_iff, head?_strays]

end Node
end Pattern
end Railroad
