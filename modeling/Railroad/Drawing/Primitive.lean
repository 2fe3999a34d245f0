/-
# The primitives of a drawing

A drawing consists of boxes with a label, captions, paths, arrowheads and dashed
frames.  The `y` axis points down.

A straight path is a polyline through its points.  A curved path is a chain of
cubic Bézier segments: the first point is its start, and every three points
after it are two control points and the end of a segment.
-/

import Railroad.Scalar

namespace Railroad
namespace Drawing

/-- A place on the drawing. -/
structure Point (α : Type) where
  x : α
  y : α
  deriving DecidableEq, Repr

/-- The place on the same horizontal line at the given `x`. -/
def Point.withX {α : Type} (p : Point α) (x : α) : Point α := ⟨x, p.y⟩

/-- Where a caption lies relative to its `x`. -/
inductive Anchor where
  | start
  | middle
  | finish
  deriving DecidableEq, Repr

/-- Where an arrowhead points. -/
inductive Direction where
  | left
  | right
  deriving DecidableEq, Repr

/-- The name of an anchor. -/
def Anchor.name : Anchor → String
  | .start => "start"
  | .middle => "middle"
  | .finish => "end"

/-- The anchor with the given name. -/
def Anchor.ofName? (s : String) : Option Anchor :=
  [Anchor.start, .middle, .finish].find? (·.name == s)

/-- The name of a direction. -/
def Direction.name : Direction → String
  | .left => "left"
  | .right => "right"

/-- The direction with the given name. -/
def Direction.ofName? (s : String) : Option Direction :=
  [Direction.left, .right].find? (·.name == s)

theorem Anchor.ofName?_name (a : Anchor) : Anchor.ofName? a.name = some a := by
  cases a <;> decide +kernel

theorem Direction.ofName?_name (d : Direction) : Direction.ofName? d.name = some d := by
  cases d <;> decide +kernel

/-- A labelled terminal, placed by its top left corner. -/
structure Box (α : Type) where
  x : α
  y : α
  width : α
  height : α
  cornerRadius : α
  label : String
  fontSize : α
  fill : String
  stroke : String
  strokeWidth : α
  deriving DecidableEq, Repr

/-- A line of text; `y` is its baseline. -/
structure Caption (α : Type) where
  x : α
  y : α
  text : String
  fontSize : α
  anchor : Anchor := .start
  fill : String := "#000"
  deriving DecidableEq, Repr

/-- A connector of the track. -/
structure Connector (α : Type) where
  points : List (Point α)
  curved : Bool := false
  stroke : String
  strokeWidth : α
  deriving DecidableEq, Repr

/-- The point where a path starts, if it has any. -/
def Connector.start? {α : Type} (p : Connector α) : Option (Point α) := p.points.head?

/-- The point where a path ends, if it has any. -/
def Connector.finish? {α : Type} (p : Connector α) : Option (Point α) := p.points.getLast?

/-- A filled triangle with its tip at the given place. -/
structure Arrow (α : Type) where
  x : α
  y : α
  direction : Direction
  size : α
  fill : String
  deriving DecidableEq, Repr

/-- A dashed rectangle, placed by its top left corner. -/
structure Frame (α : Type) where
  x : α
  y : α
  width : α
  height : α
  stroke : String
  strokeWidth : α
  deriving DecidableEq, Repr

/-- One thing to draw. -/
inductive Primitive (α : Type) where
  | box (box : Box α)
  | caption (caption : Caption α)
  | path (path : Connector α)
  | arrow (arrow : Arrow α)
  | frame (frame : Frame α)
  deriving DecidableEq, Repr

/-- The five kinds of primitives. -/
inductive Kind where
  | box
  | caption
  | path
  | arrow
  | frame
  deriving DecidableEq, Repr

/-- The name of a kind in an exchanged diagram. -/
def Kind.name : Kind → String
  | .box => "box"
  | .caption => "text"
  | .path => "path"
  | .arrow => "arrow"
  | .frame => "frame"

/-- The kinds in the order of their names. -/
def Kind.all : List Kind := [.arrow, .box, .frame, .path, .caption]

/-- The kind with the given name. -/
def Kind.ofName? (s : String) : Option Kind := all.find? (·.name == s)

theorem Kind.ofName?_name (k : Kind) : Kind.ofName? k.name = some k := by
  cases k <;> decide +kernel

/-- The kind of a primitive. -/
def Primitive.kind {α : Type} : Primitive α → Kind
  | .box _ => .box
  | .caption _ => .caption
  | .path _ => .path
  | .arrow _ => .arrow
  | .frame _ => .frame

end Drawing
end Railroad
