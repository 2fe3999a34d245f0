/-
# Similar drawings

A similarity of the page multiplies every distance by one positive factor and moves the
whole:

| of a primitive | is |
| --- | --- |
| a place | mapped |
| a width, a height, a radius, a font size, the size of an arrowhead | multiplied |
| a text, an anchor, a direction, a colour, whether a path is curved | kept |

The extent of the image of a primitive is the image of its extent (`extent?_primitive`),
and the bounds of the images of some primitives are the image of their bounds
(`of?_map_primitive`).
-/

import Mathlib.Tactic.Ring
import Railroad.Proofs.Drawing.Exact

namespace Railroad

namespace Scalar

variable {g : ℚ → ℚ}

/-- A monotone map keeps which of two numbers is the least. -/
theorem least_map (hg : Monotone g) (a b : ℚ) : least (g a) (g b) = g (least a b) := by
  rw [least_eq_min, least_eq_min, hg.map_min]

/-- A monotone map keeps which of two numbers is the greatest. -/
theorem greatest_map (hg : Monotone g) (a b : ℚ) : greatest (g a) (g b) = g (greatest a b) := by
  rw [greatest_eq_max, greatest_eq_max, hg.map_max]

end Scalar

namespace Drawing

/-- A map of the page that multiplies every distance by a factor and moves the whole. -/
structure Similarity where
  factor : ℚ
  dx : ℚ
  dy : ℚ
  factor_pos : 0 < factor

namespace Similarity

/-- The map that moves one place to another and keeps all distances. -/
def moving (source target : Point ℚ) : Similarity :=
  ⟨1, target.x - source.x, target.y - source.y, one_pos⟩

variable (f : Similarity)

/-- Where a vertical line goes. -/
def x (a : ℚ) : ℚ := f.factor * a + f.dx

/-- Where a horizontal line goes. -/
def y (a : ℚ) : ℚ := f.factor * a + f.dy

/-- Where a place goes. -/
def point (p : Point ℚ) : Point ℚ := ⟨f.x p.x, f.y p.y⟩

/-- Where a rectangle goes. -/
def bounds (b : Bounds ℚ) : Bounds ℚ := ⟨f.x b.minX, f.y b.minY, f.x b.maxX, f.y b.maxY⟩

/-- The image of a primitive, by the table above. -/
def primitive : Primitive ℚ → Primitive ℚ
  | .box b => .box { b with
      x := f.x b.x
      y := f.y b.y
      width := f.factor * b.width
      height := f.factor * b.height
      cornerRadius := f.factor * b.cornerRadius
      fontSize := f.factor * b.fontSize
      strokeWidth := f.factor * b.strokeWidth }
  | .caption c => .caption { c with
      x := f.x c.x
      y := f.y c.y
      fontSize := f.factor * c.fontSize }
  | .path p => .path { p with
      points := p.points.map f.point
      strokeWidth := f.factor * p.strokeWidth }
  | .arrow a => .arrow { a with
      x := f.x a.x
      y := f.y a.y
      size := f.factor * a.size }
  | .frame r => .frame { r with
      x := f.x r.x
      y := f.y r.y
      width := f.factor * r.width
      height := f.factor * r.height
      strokeWidth := f.factor * r.strokeWidth }

/-! ### Lines -/

section

variable (a b : ℚ)

/-- A distance added to a position is scaled, and not moved. -/
theorem x_add : f.x (a + b) = f.x a + f.factor * b := by rw [x, x]; ring

/-- A distance taken from a position is scaled, and not moved. -/
theorem x_sub : f.x (a - b) = f.x a - f.factor * b := by rw [x, x]; ring

/-- A distance added to a height is scaled, and not moved. -/
theorem y_add : f.y (a + b) = f.y a + f.factor * b := by rw [y, y]; ring

/-- A distance taken from a height is scaled, and not moved. -/
theorem y_sub : f.y (a - b) = f.y a - f.factor * b := by rw [y, y]; ring

/-- The distance of two positions is scaled. -/
theorem x_sub_x : f.x a - f.x b = f.factor * (a - b) := by rw [x, x]; ring

/-- The distance of two heights is scaled. -/
theorem y_sub_y : f.y a - f.y b = f.factor * (a - b) := by rw [y, y]; ring

end

/-- Scaling keeps the order of distances, … -/
theorem factor_mono : Monotone (f.factor * ·) := fun _ _ h =>
  mul_le_mul_of_nonneg_left h f.factor_pos.le

/-- … so the image of what is further to the right is further to the right, … -/
theorem x_mono : Monotone f.x := fun _ _ h => add_le_add_left (f.factor_mono h) f.dx

/-- … and the image of what is further down is further down. -/
theorem y_mono : Monotone f.y := fun _ _ h => add_le_add_left (f.factor_mono h) f.dy

/-- Two heights with one image are one height. -/
theorem y_injective : Function.Injective f.y := fun _ _ h =>
  mul_left_cancel₀ f.factor_pos.ne' (add_right_cancel h)

/-- A point can be moved to any other. -/
theorem point_moving (source target : Point ℚ) : (moving source target).point source = target := by
  cases target
  simp only [point, x, y, moving, one_mul, add_sub_cancel]

/-! ### Rectangles -/

/-- The union of the images of two rectangles is the image of their union. -/
theorem union_bounds (b c : Bounds ℚ) : (f.bounds b).union (f.bounds c) = f.bounds (b.union c) := by
  simp only [Bounds.union, bounds, Scalar.least_map f.x_mono, Scalar.least_map f.y_mono,
    Scalar.greatest_map f.x_mono, Scalar.greatest_map f.y_mono]

/-- The image of a rectangle with a margin has the scaled margin. -/
theorem expand_bounds (b : Bounds ℚ) (margin : ℚ) :
    (f.bounds b).expand (f.factor * margin) = f.bounds (b.expand margin) := by
  simp only [Bounds.expand, bounds, x_sub, y_sub, x_add, y_add]

/-- Widths are scaled. -/
theorem width_bounds (b : Bounds ℚ) : (f.bounds b).width = f.factor * b.width := f.x_sub_x ..

/-- Heights are scaled. -/
theorem height_bounds (b : Bounds ℚ) : (f.bounds b).height = f.factor * b.height := f.y_sub_y ..

/-- The union of the images of rectangles is the image of their union, if they have one. -/
theorem unionAll_map_bounds (rectangles : List (Bounds ℚ)) :
    Bounds.unionAll (rectangles.map f.bounds) = (Bounds.unionAll rectangles).map f.bounds := by
  cases rectangles with
  | nil => rfl
  | cons b others =>
      have hfold : (others.map f.bounds).foldl Bounds.union (f.bounds b) =
          f.bounds (others.foldl Bounds.union b) := by
        induction others generalizing b with
        | nil => rfl
        | cons c others ih => rw [List.map_cons, List.foldl_cons, union_bounds, ih, List.foldl_cons]
      exact congrArg some hfold

/-! ### Primitives -/

/-- A text in the scaled font is as wide as the scaled text. -/
theorem textWidth_factor (text : String) (fontSize : ℚ) :
    textWidth text (f.factor * fontSize) = f.factor * textWidth text fontSize := by
  rw [textWidth_eq, textWidth_eq]
  ring

/-- The image of a caption has its left end where the caption's goes. -/
theorem left_caption (c : Caption ℚ) :
    Caption.left { c with x := f.x c.x, y := f.y c.y, fontSize := f.factor * c.fontSize } =
      f.x c.left := by
  simp only [Caption.left]
  cases c.anchor with
  | start => rfl
  | middle => rw [textWidth_factor, mul_div_assoc, x_sub]
  | finish => rw [textWidth_factor, x_sub]

/-- **The image of a primitive takes up the image of the room that the primitive takes
up.** -/
theorem extent?_primitive (p : Primitive ℚ) :
    (f.primitive p).extent? = p.extent?.map f.bounds := by
  cases p with
  | box b => simp only [primitive, Primitive.extent?, Box.extent, Option.map_some, bounds,
      x_add, y_add]
  -- how far a caption extends to the left depends on the width of its text, which is scaled
  | caption c =>
      refine congrArg some ?_
      rw [Caption.extent, left_caption, Caption.extent]
      simp only [bounds, y_sub, x_add, y_add, textWidth_factor, mul_assoc]
  -- the extent of a path is the union of its points, each a rectangle by itself
  | path p =>
      have hpoints : Bounds.ofPoint ∘ f.point = f.bounds ∘ Bounds.ofPoint := rfl
      simp only [primitive, Primitive.extent?, Connector.extent?]
      rw [List.map_map, hpoints, ← List.map_map, unionAll_map_bounds]
  | arrow a => simp only [primitive, Primitive.extent?, Arrow.extent, Option.map_some, bounds,
      x_sub, y_sub, x_add, y_add]
  | frame r => simp only [primitive, Primitive.extent?, Frame.extent, Option.map_some, bounds,
      x_add, y_add]

/-- **The bounds of the image of a drawing are the image of its bounds.** -/
theorem of?_map_primitive (primitives : List (Primitive ℚ)) :
    Bounds.of? (primitives.map f.primitive) = (Bounds.of? primitives).map f.bounds := by
  have hextents : Primitive.extent? ∘ f.primitive = fun p => p.extent?.map f.bounds :=
    funext f.extent?_primitive
  rw [Bounds.of?, List.filterMap_map, hextents, ← List.map_filterMap, unionAll_map_bounds,
    Bounds.of?]

end Similarity
end Drawing
end Railroad
