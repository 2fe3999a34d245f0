/-
# Writing diagrams

A diagram is exchanged as a JSON object of its primitives and its bounds.  A
primitive is an object that names its kind first; a point is an object of its
coordinates.  Width and height of the bounds follow from the sides and are not
written.

The texts of a diagram, and the text that it is written as, are sequences of Unicode scalar
values.  There is no lone surrogate in them: such a text could not be encoded, and would not
be written at all.
-/

import Railroad.Drawing.Diagram
import Railroad.Json.Writer

namespace Railroad
namespace Exchange

open Drawing

/-- A point as an object. -/
def pointJson (p : Point Float) : Json := .object [("x", .real p.x), ("y", .real p.y)]

/-- The fields of a primitive behind its kind. -/
def primitiveFields : Primitive Float → List (String × Json)
  | .box b =>
    [("x", .real b.x),
     ("y", .real b.y),
     ("width", .real b.width),
     ("height", .real b.height),
     ("corner_radius", .real b.cornerRadius),
     ("label", .string b.label),
     ("font_size", .real b.fontSize),
     ("fill", .string b.fill),
     ("stroke", .string b.stroke),
     ("stroke_width", .real b.strokeWidth)]
  | .caption c =>
    [("x", .real c.x),
     ("y", .real c.y),
     ("text", .string c.text),
     ("font_size", .real c.fontSize),
     ("anchor", .string c.anchor.name),
     ("fill", .string c.fill)]
  | .path p =>
    [("points", .array (p.points.map pointJson)),
     ("curved", .bool p.curved),
     ("stroke", .string p.stroke),
     ("stroke_width", .real p.strokeWidth)]
  | .arrow a =>
    [("x", .real a.x),
     ("y", .real a.y),
     ("direction", .string a.direction.name),
     ("size", .real a.size),
     ("fill", .string a.fill)]
  | .frame f =>
    [("x", .real f.x),
     ("y", .real f.y),
     ("width", .real f.width),
     ("height", .real f.height),
     ("stroke", .string f.stroke),
     ("stroke_width", .real f.strokeWidth)]

/-- A primitive as an object. -/
def primitiveJson (p : Primitive Float) : Json :=
  .object (("kind", .string p.kind.name) :: primitiveFields p)

/-- Bounds as an object of the four sides. -/
def boundsJson (b : Bounds Float) : Json :=
  .object
    [("min_x", .real b.minX),
     ("min_y", .real b.minY),
     ("max_x", .real b.maxX),
     ("max_y", .real b.maxY)]

/-- A diagram as an object. -/
def diagramJson (d : Diagram Float) : Json :=
  .object
    [("primitives", .array (d.primitives.map primitiveJson)),
     ("bounds", boundsJson d.bounds)]

/-- The text of a diagram. -/
def write (style : Json.Style) (d : Diagram Float) : String := (diagramJson d).text style

end Exchange
end Railroad
