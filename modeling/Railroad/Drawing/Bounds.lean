/-
# How much room a drawing needs

The extent of a primitive is an upright rectangle around it:

| primitive | extent |
| --- | --- |
| box, frame | the rectangle itself |
| caption | the width of its text, placed by its anchor, and the height of its line |
| path | all of its points, control points included; none without points |
| arrowhead | its size in every direction from the tip |

A cubic segment stays inside the hull of its control points, so a path lies in
its extent.  The bounds of several primitives are the union of their extents.
-/

import Railroad.Drawing.Primitive

namespace Railroad
namespace Drawing

variable {α : Type} [Scalar α]

open Scalar (least greatest)

/-- The advance of a glyph as a part of the font size, the same for all. -/
def glyphAdvance : α := (3 : Nat) / (5 : Nat)

/-- The width of a line of text. -/
def textWidth (text : String) (fontSize : α) : α :=
  text.length * (fontSize * glyphAdvance)

/-- An upright rectangle, given by its sides. -/
structure Bounds (α : Type) where
  /-- The left side. -/
  minX : α
  /-- The upper side. -/
  minY : α
  /-- The right side. -/
  maxX : α
  /-- The lower side. -/
  maxY : α
  deriving DecidableEq, Repr

namespace Bounds

/-- The rectangle of no size at the origin. -/
def zero : Bounds α := ⟨(0 : Nat), (0 : Nat), (0 : Nat), (0 : Nat)⟩

/-- From the left side to the right one. -/
def width (b : Bounds α) : α := b.maxX - b.minX

/-- From the upper side to the lower one. -/
def height (b : Bounds α) : α := b.maxY - b.minY

/-- The rectangle grown by a margin on every side. -/
def expand (b : Bounds α) (margin : α) : Bounds α :=
  ⟨b.minX - margin, b.minY - margin, b.maxX + margin, b.maxY + margin⟩

/-- The smallest rectangle around two. -/
def union (b c : Bounds α) : Bounds α :=
  ⟨least b.minX c.minX, least b.minY c.minY, greatest b.maxX c.maxX, greatest b.maxY c.maxY⟩

/-- The rectangle that is a single point. -/
def ofPoint (p : Point α) : Bounds α := ⟨p.x, p.y, p.x, p.y⟩

/-- The union of a list of rectangles, taken from the left; none for an empty
list. -/
def unionAll : List (Bounds α) → Option (Bounds α)
  | [] => none
  | b :: bs => some (bs.foldl union b)

end Bounds

/-- A box takes up its own rectangle. -/
def Box.extent (b : Box α) : Bounds α := ⟨b.x, b.y, b.x + b.width, b.y + b.height⟩

/-- A frame takes up its own rectangle. -/
def Frame.extent (f : Frame α) : Bounds α := ⟨f.x, f.y, f.x + f.width, f.y + f.height⟩

/-- An arrowhead takes up its size on every side of its tip. -/
def Arrow.extent (a : Arrow α) : Bounds α :=
  ⟨a.x - a.size, a.y - a.size, a.x + a.size, a.y + a.size⟩

/-- The left end of a caption. -/
def Caption.left (c : Caption α) : α :=
  match c.anchor with
  | .start => c.x
  | .middle => c.x - textWidth c.text c.fontSize / (2 : Nat)
  | .finish => c.x - textWidth c.text c.fontSize

/-- A caption takes up its line: one font size above the baseline and a quarter
below. -/
def Caption.extent (c : Caption α) : Bounds α :=
  ⟨c.left, c.y - c.fontSize, c.left + textWidth c.text c.fontSize,
    c.y + c.fontSize * ((1 : Nat) / (4 : Nat))⟩

/-- A path takes up the rectangle around its points, if it has any. -/
def Connector.extent? (p : Connector α) : Option (Bounds α) :=
  Bounds.unionAll (p.points.map Bounds.ofPoint)

/-- The extent of a primitive, if it has one. -/
def Primitive.extent? : Primitive α → Option (Bounds α)
  | .box b => some b.extent
  | .caption c => some c.extent
  | .path p => p.extent?
  | .arrow a => some a.extent
  | .frame f => some f.extent

/-- The bounds of a list of primitives; none if no primitive has an extent. -/
def Bounds.of? (primitives : List (Primitive α)) : Option (Bounds α) :=
  unionAll (primitives.filterMap Primitive.extent?)

end Drawing
end Railroad
