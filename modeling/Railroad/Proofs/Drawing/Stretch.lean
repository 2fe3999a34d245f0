/-
# Drawings stretched to the right

A drawing is another one stretched to the right when it is made of the same pieces in the
same order, all of them at the same heights, and none ends further to the left.  What is
kept of a primitive is its kind, its `y` coordinates and its heights
(`Primitive.vertical`):

| primitive | what is kept |
| --- | --- |
| box, frame | the upper side and the height |
| caption | the baseline and the font size |
| path | the line of every point |
| arrowhead | the line of the tip and the size |

The extents are then stretched as well, and so is any hull of them (`IsHull.stretchesTo`),
such as the bounds of a diagram (`Bounds.stretchesTo_of`).
-/

import Mathlib.Data.List.Forall2
import Railroad.Proofs.Drawing.Hull

namespace Railroad
namespace Drawing

/-- The kind of a primitive, its `y` coordinates and its heights. -/
def Primitive.vertical : Primitive ℚ → Kind × List ℚ
  | .box b => (.box, [b.y, b.height])
  | .caption c => (.caption, [c.y, c.fontSize])
  | .path c => (.path, c.points.map Point.y)
  | .arrow a => (.arrow, [a.y, a.size])
  | .frame f => (.frame, [f.y, f.height])

/-- Whether the second of two places is on the same line, and not to the left. -/
structure Point.Ahead (p q : Point ℚ) : Prop where
  x : p.x ≤ q.x
  y : p.y = q.y

/-- Whether the second of two rectangles is as high as the first, at the same height, and
does not end to the left of it. -/
structure Bounds.StretchesTo (b c : Bounds ℚ) : Prop where
  minY : b.minY = c.minY
  maxY : b.maxY = c.maxY
  maxX : b.maxX ≤ c.maxX

/-- Whether the second of two primitives is the first one stretched to the right. -/
structure Primitive.StretchesTo (p q : Primitive ℚ) : Prop where
  /-- In all that is not horizontal the two are the same. -/
  vertical : p.vertical = q.vertical
  /-- Both take up room, and what they take up differs by a stretch. -/
  extents : ∃ b c, p.extent? = some b ∧ q.extent? = some c ∧ b.StretchesTo c

theorem Point.Ahead.refl (p : Point ℚ) : p.Ahead p := ⟨le_rfl, rfl⟩

/-- Two points one ahead of the other stay so when they are set to positions one ahead of the
other. -/
theorem Point.Ahead.move {p q : Point ℚ} (h : p.Ahead q) {x x' : ℚ} (hx : x ≤ x') :
    (p.withX x).Ahead (q.withX x') := ⟨hx, h.y⟩

/-! ### Bounds -/

namespace Bounds

theorem StretchesTo.refl (b : Bounds ℚ) : b.StretchesTo b := ⟨rfl, rfl, le_rfl⟩

/-- Rectangles that differ by a stretch still do so with the same margin. -/
theorem StretchesTo.expand {b c : Bounds ℚ} (h : b.StretchesTo c) (margin : ℚ) :
    (b.expand margin).StretchesTo (c.expand margin) where
  minY := congrArg (· - margin) h.minY
  maxY := congrArg (· + margin) h.maxY
  maxX := add_le_add_left h.maxX margin

/-- A stretch does not change the height. -/
theorem StretchesTo.height {b c : Bounds ℚ} (h : b.StretchesTo c) : b.height = c.height := by
  rw [Bounds.height, Bounds.height, h.minY, h.maxY]

variable {rectangles others : List (Bounds ℚ)}

/-- What a stretch does not change of a rectangle, it does not change of a list of them. -/
theorem map_eq_of_forall₂ {f : Bounds ℚ → ℚ} (hf : ∀ {b c : Bounds ℚ}, b.StretchesTo c → f b = f c)
    (h : List.Forall₂ StretchesTo rectangles others) : rectangles.map f = others.map f := by
  induction h with
  | nil => rfl
  | cons hbc _ ih => rw [List.map_cons, List.map_cons, hf hbc, ih]

/-- **The hull of rectangles that are stretched is stretched.** -/
theorem IsHull.stretchesTo {hull hull' : Bounds ℚ} (hhull : IsHull rectangles hull)
    (hhull' : IsHull others hull') (h : List.Forall₂ StretchesTo rectangles others) :
    hull.StretchesTo hull' where
  minY := by
    have hleast := hhull.minY
    rw [map_eq_of_forall₂ StretchesTo.minY h] at hleast
    exact hleast.unique hhull'.minY
  maxY := by
    have hgreatest := hhull.maxY
    rw [map_eq_of_forall₂ StretchesTo.maxY h] at hgreatest
    exact hgreatest.unique hhull'.maxY
  -- the right side is attained by a rectangle, whose image does not end before it
  maxX := by
    obtain ⟨b, hb, hgreatest⟩ := List.mem_map.1 hhull.maxX.1
    obtain ⟨i, hi, rfl⟩ := List.mem_iff_getElem.1 hb
    have hi' : i < others.length := h.length_eq ▸ hi
    have hstretched : rectangles[i].StretchesTo others[i] := h.get hi hi'
    rw [← hgreatest]
    exact hstretched.maxX.trans ((hhull'.covers (List.getElem_mem hi')).maxX)

end Bounds

/-! ### Primitives -/

variable {drawn drawn' : List (Primitive ℚ)}

/-- Primitives that differ by stretches have extents that do. -/
theorem forall₂_extents (h : List.Forall₂ Primitive.StretchesTo drawn drawn') :
    List.Forall₂ Bounds.StretchesTo (Bounds.extents drawn) (Bounds.extents drawn') := by
  induction h with
  | nil => exact .nil
  | cons hpq _ ih =>
      obtain ⟨b, c, hb, hc, hbc⟩ := hpq.extents
      rw [Bounds.extents, Bounds.extents, List.filterMap_cons_some hb,
        List.filterMap_cons_some hc]
      exact .cons hbc ih

/-- Primitives that differ by stretches are the same in all that is not horizontal. -/
theorem map_vertical_eq (h : List.Forall₂ Primitive.StretchesTo drawn drawn') :
    drawn.map Primitive.vertical = drawn'.map Primitive.vertical := by
  induction h with
  | nil => rfl
  | cons hpq _ ih => rw [List.map_cons, List.map_cons, hpq.vertical, ih]

/-- **The bounds of a diagram that is stretched are stretched.** -/
theorem Bounds.stretchesTo_of (h : List.Forall₂ Primitive.StretchesTo drawn drawn') :
    (Diagram.of drawn).bounds.StretchesTo (Diagram.of drawn').bounds := by
  cases h with
  | nil => exact .refl _
  | cons hpq hrest =>
      obtain ⟨b, c, hb, hc, -⟩ := hpq.extents
      exact (isHull_diagram List.mem_cons_self hb).stretchesTo
        (isHull_diagram List.mem_cons_self hc) (forall₂_extents (.cons hpq hrest))

/-- A path is stretched if all of its points move to the right. -/
theorem Primitive.stretchesTo_path {c c' : Connector ℚ} {p p' : Point ℚ} {ps ps' : List (Point ℚ)}
    (hc : c.points = p :: ps) (hc' : c'.points = p' :: ps')
    (h : List.Forall₂ Point.Ahead (p :: ps) (p' :: ps')) :
    (Primitive.path c).StretchesTo (.path c') := by
  -- points ahead of others are on the same lines …
  have hlines : ∀ {qs qs' : List (Point ℚ)}, List.Forall₂ Point.Ahead qs qs' →
      qs.map Point.y = qs'.map Point.y := by
    intro qs qs' hqs
    induction hqs with
    | nil => rfl
    | cons hq _ ih => rw [List.map_cons, List.map_cons, hq.y, ih]
  -- … and as rectangles they differ by stretches, so their unions do
  have hrectangles : List.Forall₂ Bounds.StretchesTo ((p :: ps).map Bounds.ofPoint)
      ((p' :: ps').map Bounds.ofPoint) := by
    rw [List.forall₂_map_left_iff, List.forall₂_map_right_iff]
    exact h.imp fun q q' hq => ⟨hq.y, hq.y, hq.x⟩
  refine ⟨?_, _, _, ?_, ?_, (Bounds.isHull_unionAll rfl).stretchesTo (Bounds.isHull_unionAll rfl)
    hrectangles⟩
  · rw [vertical, vertical, hc, hc', hlines h]
  · rw [extent?, Connector.extent?, hc]
    rfl
  · rw [extent?, Connector.extent?, hc']
    rfl

end Drawing
end Railroad
