/-
# The smallest rectangle around several

A rectangle covers another when the other lies inside it, side by side.  The hull of
some rectangles is found side by side as well: its left side is the least of their
left sides, its right side the greatest of their right sides, and so for the upper and
the lower ones (`IsHull`).  This says all there is to say of it, also for rectangles
that are turned inside out.

The bounds of a list of primitives are the hull of their extents (`isHull_of?`), and
the union of two hulls is the hull of both lists (`IsHull.union`).
-/

import Mathlib.Order.Bounds.Basic
import Railroad.Drawing.Diagram
import Railroad.Proofs.Drawing.Exact

namespace Railroad
namespace Drawing
namespace Bounds

/-- One rectangle covers another when no side of the other lies beyond its own. -/
structure Covers (outer inner : Bounds ℚ) : Prop where
  minX : outer.minX ≤ inner.minX
  minY : outer.minY ≤ inner.minY
  maxX : inner.maxX ≤ outer.maxX
  maxY : inner.maxY ≤ outer.maxY

/-- Of two rectangles the outer one still covers the inner one when both get the same margin. -/
theorem Covers.expand {outer inner : Bounds ℚ} (h : outer.Covers inner) (margin : ℚ) :
    (outer.expand margin).Covers (inner.expand margin) where
  minX := sub_le_sub_right h.minX margin
  minY := sub_le_sub_right h.minY margin
  maxX := add_le_add_left h.maxX margin
  maxY := add_le_add_left h.maxY margin

/-- What covers a rectangle covers everything that the rectangle covers. -/
theorem Covers.trans {b c d : Bounds ℚ} (h : b.Covers c) (h' : c.Covers d) : b.Covers d where
  minX := h.minX.trans h'.minX
  minY := h.minY.trans h'.minY
  maxX := h'.maxX.trans h.maxX
  maxY := h'.maxY.trans h.maxY

/-- A rectangle that is made larger covers no less. -/
theorem Covers.expand_left {outer inner : Bounds ℚ} (h : outer.Covers inner) {margin : ℚ}
    (hmargin : 0 ≤ margin) : (outer.expand margin).Covers inner where
  minX := (sub_le_self _ hmargin).trans h.minX
  minY := (sub_le_self _ hmargin).trans h.minY
  maxX := h.maxX.trans (le_add_of_nonneg_right hmargin)
  maxY := h.maxY.trans (le_add_of_nonneg_right hmargin)

/-- The hull of some rectangles: every side is the outermost one there is. -/
structure IsHull (rectangles : List (Bounds ℚ)) (hull : Bounds ℚ) : Prop where
  minX : IsLeast {x | x ∈ rectangles.map Bounds.minX} hull.minX
  minY : IsLeast {y | y ∈ rectangles.map Bounds.minY} hull.minY
  maxX : IsGreatest {x | x ∈ rectangles.map Bounds.maxX} hull.maxX
  maxY : IsGreatest {y | y ∈ rectangles.map Bounds.maxY} hull.maxY

variable {rectangles others : List (Bounds ℚ)} {hull hull' : Bounds ℚ}

/-- A hull covers the rectangles that it is around. -/
theorem IsHull.covers (h : IsHull rectangles hull) {b : Bounds ℚ} (hb : b ∈ rectangles) :
    hull.Covers b where
  minX := h.minX.2 (List.mem_map_of_mem hb)
  minY := h.minY.2 (List.mem_map_of_mem hb)
  maxX := h.maxX.2 (List.mem_map_of_mem hb)
  maxY := h.maxY.2 (List.mem_map_of_mem hb)

theorem setOf_mem_map_singleton {β γ : Type} (f : β → γ) (a : β) :
    {x | x ∈ [a].map f} = {f a} := by
  ext x
  exact List.mem_singleton

theorem setOf_mem_map_append {β γ : Type} (f : β → γ) (xs ys : List β) :
    {x | x ∈ (xs ++ ys).map f} = {x | x ∈ xs.map f} ∪ {x | x ∈ ys.map f} := by
  ext x
  rw [List.map_append]
  exact List.mem_append

/-- A rectangle is its own hull. -/
theorem isHull_singleton (b : Bounds ℚ) : IsHull [b] b := by
  constructor <;> rw [setOf_mem_map_singleton]
  · exact isLeast_singleton
  · exact isLeast_singleton
  · exact isGreatest_singleton
  · exact isGreatest_singleton

/-- The union of two hulls is the hull of both lists of rectangles. -/
theorem IsHull.union (h : IsHull rectangles hull) (h' : IsHull others hull') :
    IsHull (rectangles ++ others) (hull.union hull') := by
  simp only [Bounds.union, Scalar.least_eq_min, Scalar.greatest_eq_max]
  constructor <;> rw [setOf_mem_map_append]
  · exact h.minX.union h'.minX
  · exact h.minY.union h'.minY
  · exact h.maxX.union h'.maxX
  · exact h.maxY.union h'.maxY

/-- A hull that is joined with more rectangles, one after the other, is the hull of them all. -/
theorem IsHull.foldl_union (h : IsHull rectangles hull) (others : List (Bounds ℚ)) :
    IsHull (rectangles ++ others) (others.foldl Bounds.union hull) := by
  induction others generalizing rectangles hull with
  | nil => rwa [List.append_nil]
  | cons b others ih =>
      rw [List.append_cons]
      exact ih (h.union (isHull_singleton b))

/-- The union of a list of rectangles is their hull. -/
theorem isHull_unionAll (h : unionAll rectangles = some hull) : IsHull rectangles hull := by
  cases rectangles with
  | nil => cases h
  | cons b others =>
      obtain rfl := Option.some.inj h
      exact (isHull_singleton b).foldl_union others

/-- Only no rectangles at all have no union. -/
theorem unionAll_eq_none_iff : unionAll rectangles = none ↔ rectangles = [] := by
  cases rectangles with
  | nil => exact iff_of_true rfl rfl
  | cons b others => exact iff_of_false (Option.some_ne_none _) (List.cons_ne_nil b others)

/-- The extents of the primitives that have one. -/
def extents (primitives : List (Primitive ℚ)) : List (Bounds ℚ) :=
  primitives.filterMap Primitive.extent?

/-- The extent of a primitive is among the extents of the primitives. -/
theorem mem_extents {primitives : List (Primitive ℚ)} {p : Primitive ℚ} {b : Bounds ℚ}
    (hp : p ∈ primitives) (hb : p.extent? = some b) : b ∈ extents primitives :=
  List.mem_filterMap.2 ⟨p, hp, hb⟩

/-- **The bounds of some primitives are the hull of their extents.** -/
theorem isHull_of? {primitives : List (Primitive ℚ)} (h : of? primitives = some hull) :
    IsHull (extents primitives) hull := isHull_unionAll h

/-- Primitives without bounds have no extents. -/
theorem extents_eq_nil {primitives : List (Primitive ℚ)} (h : of? primitives = none) :
    extents primitives = [] := unionAll_eq_none_iff.1 h

/-- The bounds of a diagram are the hull of the extents in it, if there is one. -/
theorem isHull_diagram {primitives : List (Primitive ℚ)} {p : Primitive ℚ} {b : Bounds ℚ}
    (hp : p ∈ primitives) (hb : p.extent? = some b) :
    IsHull (extents primitives) (Diagram.of primitives).bounds := by
  cases hbounds : of? primitives with
  | none =>
      have hmem := mem_extents hp hb
      rw [extents_eq_nil hbounds] at hmem
      cases hmem
  | some hull =>
      rw [Diagram.of, hbounds]
      exact isHull_of? hbounds

end Bounds
end Drawing
end Railroad
