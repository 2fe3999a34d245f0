/-
# The style of a drawing

The metrics fix every size and distance, the palette every colour.  All
distances are in one unit; the `y` axis points down, so what lies above the track
has a smaller `y`.
-/

import Railroad.Scalar

namespace Railroad
namespace Layout

/-- Sizes and distances. -/
structure Metrics (α : Type) [Scalar α] where
  /-- The font size of labels. -/
  fontSize : α := (14 : Nat)
  /-- The font size of captions. -/
  captionSize : α := (11 : Nat)
  /-- The room on either side of the label of a box. -/
  boxPadding : α := (12 : Nat)
  /-- The height of a box. -/
  boxHeight : α := (32 : Nat)
  /-- The radius of its corners. -/
  boxRadius : α := (6 : Nat)
  /-- The width of strokes. -/
  lineWidth : α := (2 : Nat)
  /-- The gap after every element of the track. -/
  spacing : α := (20 : Nat)
  /-- The gap between the boxes of a character class. -/
  classItemGap : α := (5 : Nat)
  /-- The vertical distance between the branches of a choice. -/
  choiceSpacing : α := (60 : Nat)
  /-- The horizontal room of a curve that leaves the track. -/
  branchOffset : α := (40 : Nat)
  /-- The distance of a control point on such a curve. -/
  curvePull : α := (20 : Nat)
  /-- How far a bypass runs above the track. -/
  bypassHeight : α := (40 : Nat)
  /-- How far a loop runs below the track. -/
  loopHeight : α := (50 : Nat)
  /-- How far a loop sticks out on either side. -/
  loopOverhang : α := (10 : Nat)
  /-- The size of an arrowhead. -/
  arrowSize : α := (6 : Nat)
  /-- How far the caption of a class stands above the track. -/
  classCaptionOffset : α := (32 : Nat)
  /-- How far the caption of a counted item stands above the track. -/
  countCaptionOffset : α := (25 : Nat)
  /-- How far the caption of a group stands above the track. -/
  groupCaptionOffset : α := (60 : Nat)
  /-- The room between a group's frame and what it encloses. -/
  groupPadding : α := (15 : Nat)
  /-- Where the track starts. -/
  originX : α := (20 : Nat)
  /-- The line of the track. -/
  originY : α := (100 : Nat)

/-- Fill and stroke colours. -/
structure Palette where
  literal : String := "#dae9e5"
  literalStroke : String := "#6b9080"
  escape : String := "#bada55"
  escapeStroke : String := "#769b3b"
  charset : String := "#cbdadb"
  charsetStroke : String := "#88a5b0"
  anchor : String := "#f5e6d3"
  anchorStroke : String := "#c9a66b"
  groupStroke : String := "#999"
  path : String := "#000"
  text : String := "#000"
  deriving DecidableEq, Repr

/-- Metrics and colours. -/
structure Style (α : Type) [Scalar α] where
  metrics : Metrics α := {}
  palette : Palette := {}

end Layout
end Railroad
