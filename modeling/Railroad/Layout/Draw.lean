/-
# Drawing a tree

A tree is drawn from left to right along a horizontal track.  Every node is given
the cursor where it starts and gives the cursor where the next node starts, on
the same track line.

| node | drawing |
| --- | --- |
| literal, escape, `.`, `^`, `$` | one box on the track |
| character class | a caption, and a box for each member |
| sequence | its items, one behind the other |
| choice | its alternatives above one another, and for each a connector from the track and back |
| optional | the item, and a bypass above it |
| zero or more | the item, a bypass above it and a loop below it |
| one or more | the item, and a loop below it |
| counted | its quantifier as a caption, and the item |
| group | a caption, the content, and a dashed frame around all of it |
| empty | nothing |
-/

import Railroad.Drawing.Diagram
import Railroad.Layout.Label
import Railroad.Layout.Sketch

namespace Railroad
namespace Layout

open Pattern Drawing
open Scalar (greatest)

variable {α : Type} [Scalar α] (style : Style α)

/-! ## Boxes -/

/-- A box with its left end at the cursor, centred on the track. -/
def boxAt (cursor : Point α) (width : α) (label fill stroke : String) : Primitive α :=
  .box {
    x := cursor.x
    y := cursor.y - style.metrics.boxHeight / (2 : Nat)
    width := width
    height := style.metrics.boxHeight
    cornerRadius := style.metrics.boxRadius
    label := label
    fontSize := style.metrics.fontSize
    fill := fill
    stroke := stroke
    strokeWidth := style.metrics.lineWidth }

/-- A single box. -/
def terminal (label fill stroke : String) (cursor : Point α) : Sketch α (Point α) := do
  let width := boxWidth style.metrics label
  Sketch.draw [boxAt style cursor width label fill stroke]
  return cursor.withX (cursor.x + width + style.metrics.spacing)

/-- The width of the box of a class member. -/
def itemWidth (label : String) : α :=
  textWidth label style.metrics.fontSize + style.metrics.boxPadding

/-- The boxes of class members, from left to right. -/
def itemBoxes : (cursor : Point α) → (labels : List String) → List (Primitive α)
  | _, [] => []
  | cursor, label :: labels =>
    let width := itemWidth style label
    -- the gap is added to the width before the cursor is moved, which counts where sums are
    -- rounded
    boxAt style cursor width label style.palette.charset style.palette.charsetStroke ::
      itemBoxes (cursor.withX (cursor.x + (width + style.metrics.classItemGap))) labels

/-- The width of a class: that of its caption or that of its boxes and the gaps
between them. -/
def classWidth (caption : String) (labels : List String) : α :=
  let gaps : α := style.metrics.classItemGap * ((labels.length - 1 : Nat) : α)
  greatest (boxWidth style.metrics caption)
    (Scalar.sum (labels.map (itemWidth style)) + gaps)

/-- A character class. -/
def classSketch (items : List ClassItem) (negated : Bool) (cursor : Point α) :
    Sketch α (Point α) := do
  let labels := items.map itemLabel
  let width := classWidth style (classCaption negated) labels
  Sketch.draw [.caption {
    x := cursor.x + width / (2 : Nat)
    y := cursor.y - style.metrics.classCaptionOffset
    text := classCaption negated
    fontSize := style.metrics.captionSize
    anchor := .middle
    fill := style.palette.text }]
  Sketch.draw (itemBoxes style cursor labels)
  return cursor.withX (cursor.x + width + style.metrics.spacing)

/-! ## Paths -/

/-- A polyline through the given points. -/
def line (points : List (Point α)) : Primitive α :=
  .path {
    points := points
    curved := false
    stroke := style.palette.path
    strokeWidth := style.metrics.lineWidth }

/-- A curve with the given start, control points and ends. -/
def curve (points : List (Point α)) : Primitive α :=
  .path {
    points := points
    curved := true
    stroke := style.palette.path
    strokeWidth := style.metrics.lineWidth }

/-- The curve over an item: up from its entry, across, and down at its exit. -/
def bypass (startX endX y : α) : Primitive α :=
  let top := y - style.metrics.bypassHeight
  let pull := style.metrics.curvePull
  curve style [
    ⟨startX, y⟩,
    ⟨startX + pull, y⟩,
    ⟨startX + pull, top⟩,
    -- the two segments meet above the entry of the item
    ⟨startX + style.metrics.branchOffset, top⟩,
    ⟨endX - pull, top⟩,
    ⟨endX - pull, y⟩,
    ⟨endX, y⟩]

/-- The curve under an item, from its exit back to its entry, and its
arrowhead. -/
def loop (startX endX y : α) : List (Primitive α) :=
  let bottom := y + style.metrics.loopHeight
  let overhang := style.metrics.loopOverhang
  [curve style [
    ⟨endX, y⟩,
    ⟨endX + overhang, y⟩,
    ⟨endX + overhang, bottom⟩,
    -- the two segments meet under the entry of the item
    ⟨startX, bottom⟩,
    ⟨startX - overhang, bottom⟩,
    ⟨startX - overhang, y⟩,
    ⟨startX, y⟩],
   .arrow {
    x := startX + overhang
    y := bottom
    direction := .left
    size := style.metrics.arrowSize
    fill := style.palette.path }]

/-! ## Choices -/

/-- A branch of a choice as it was drawn: where it starts and how far it
goes. -/
structure Branch (α : Type) where
  /-- Where the alternative is drawn from. -/
  entry : Point α
  /-- How far it gets. -/
  endX : α

/-- Where the alternative of the given index starts.  The track lines of all
`count` alternatives are evenly spaced and lie symmetrically about the cursor. -/
def branchEntry (cursor : Point α) (count index : Nat) : Point α :=
  let offset : α :=
    ((index : α) - ((count - 1 : Nat) : α) / (2 : Nat)) * style.metrics.choiceSpacing
  ⟨cursor.x + style.metrics.branchOffset, cursor.y + offset⟩

/-- The `x` where all branches of a choice meet again. -/
def exitX (cursor : Point α) (branches : List (Branch α)) : α :=
  -- never in front of the cursor, also where there are no branches
  cursor.x + branches.foldl (fun width b => greatest width (b.endX - cursor.x)) (0 : Nat)

/-- The two connectors of a branch: straight on the track line, curved
elsewhere. -/
def connectors (cursor : Point α) (exit : α) (branch : Branch α) : List (Primitive α) :=
  let pull := style.metrics.curvePull
  let entry := branch.entry
  -- a branch on the line of the track needs no curve to get there
  if entry.y == cursor.y then
    [line style [⟨cursor.x, cursor.y⟩, ⟨entry.x, entry.y⟩],
     line style [⟨branch.endX, entry.y⟩, ⟨exit, cursor.y⟩]]
  else
    [curve style [
      ⟨cursor.x, cursor.y⟩,
      ⟨cursor.x + pull, cursor.y⟩,
      ⟨cursor.x + pull, entry.y⟩,
      ⟨entry.x, entry.y⟩],
     curve style [
      ⟨branch.endX, entry.y⟩,
      ⟨exit - pull, entry.y⟩,
      ⟨exit - pull, cursor.y⟩,
      ⟨exit, cursor.y⟩]]

/-- What is drawn when all branches of a choice are: their connectors. -/
def joined (cursor : Point α) (branches : List (Branch α)) : Sketch α (Point α) := do
  let exit := exitX cursor branches
  Sketch.draw (branches.flatMap (connectors style cursor exit))
  return cursor.withX (exit + style.metrics.spacing)

/-! ## Captions and frames -/

/-- The quantifier of a counted item, above its start. -/
def countCaption (quantifier : String) (cursor : Point α) : Primitive α :=
  .caption {
    x := cursor.x
    y := cursor.y - style.metrics.countCaptionOffset
    text := quantifier
    fontSize := style.metrics.captionSize
    anchor := .start
    fill := style.palette.text }

/-- Where the content of a group starts. -/
def contentStart (cursor : Point α) : Point α :=
  cursor.withX (cursor.x + style.metrics.groupPadding)

/-- The caption of a group, if its kind has one. -/
def captionOf (kind : GroupKind) (cursor : Point α) : List (Primitive α) :=
  if kind = .capturing then []
  else
    [.caption {
      x := cursor.x + style.metrics.groupPadding
      y := cursor.y - style.metrics.groupCaptionOffset
      text := groupCaption kind
      fontSize := style.metrics.captionSize
      anchor := .start
      fill := style.palette.text }]

/-- The track inside a group, as high as a box. -/
def trackBand (start finish : Point α) (y : α) : Bounds α :=
  let half := style.metrics.boxHeight / (2 : Nat)
  ⟨start.x, y - half, finish.x, y + half⟩

/-- The frame around what a group draws: its track, its caption and all of its
content, with room on every side. -/
def frameBounds (drawn : List (Primitive α)) (cursor finish : Point α) : Bounds α :=
  let band := trackBand style (contentStart style cursor) finish cursor.y
  -- content that draws nothing is framed by its track alone
  let extent := match Bounds.of? drawn with
    | none => band
    | some content => band.union content
  extent.expand style.metrics.groupPadding

/-- What is drawn when the content of a group is: its frame. -/
def framed (drawn : List (Primitive α)) (cursor finish : Point α) : Sketch α (Point α) := do
  let frame := frameBounds style drawn cursor finish
  Sketch.draw [.frame {
    x := frame.minX
    y := frame.minY
    width := frame.width
    height := frame.height
    stroke := style.palette.groupStroke
    strokeWidth := style.metrics.lineWidth }]
  return cursor.withX (frame.maxX + style.metrics.spacing)

/-! ## Trees -/

mutual

/-- Draws a node from the cursor, and gives the cursor behind it. -/
def sketch : Node → Point α → Sketch α (Point α)
  | .literal text, cursor =>
    terminal style (literalLabel text) style.palette.literal style.palette.literalStroke cursor
  | .escape text, cursor =>
    terminal style (escapeLabel text) style.palette.escape style.palette.escapeStroke cursor
  | .anyChar, cursor =>
    terminal style "any character" style.palette.escape style.palette.escapeStroke cursor
  | .anchorStart, cursor =>
    terminal style "start of line" style.palette.anchor style.palette.anchorStroke cursor
  | .anchorEnd, cursor =>
    terminal style "end of line" style.palette.anchor style.palette.anchorStroke cursor
  | .charClass items negated, cursor => classSketch style items negated cursor
  | .sequence items, cursor => sketchItems items cursor
  | .choice alternatives, cursor => do
    let branches ← sketchBranches cursor alternatives.length 0 alternatives
    joined style cursor branches
  | .optional item, cursor => do
    let finish ← sketch item (cursor.withX (cursor.x + style.metrics.branchOffset))
    Sketch.draw [bypass style cursor.x finish.x cursor.y]
    return finish
  | .zeroOrMore item, cursor => do
    let start := cursor.withX (cursor.x + style.metrics.branchOffset)
    let finish ← sketch item start
    -- the bypass leads over the room in front of the item as well, the loop around the item alone
    Sketch.draw (bypass style cursor.x finish.x cursor.y :: loop style start.x finish.x cursor.y)
    return finish
  | .oneOrMore item, cursor => do
    let finish ← sketch item cursor
    Sketch.draw (loop style cursor.x finish.x cursor.y)
    return finish
  | .counted item quantifier, cursor => do
    Sketch.draw [countCaption style quantifier cursor]
    sketch item cursor
  | .group content kind, cursor =>
    -- what the frame encloses, with the caption
    let inside : Sketch α (Point α) := do
      Sketch.draw (captionOf style kind cursor)
      sketch content (contentStart style cursor)
    inside >>= framed style inside.drawn cursor
  | .empty, cursor => Sketch.pure cursor
  -- nothing is drawn for it, and what is drawn stays
  | .stray object, _ => Sketch.stop object

/-- Draws the items of a sequence one behind the other. -/
def sketchItems : List Node → Point α → Sketch α (Point α)
  | [], cursor => Sketch.pure cursor
  | item :: items, cursor => sketch item cursor >>= sketchItems items

/-- Draws the alternatives of a choice from the given index on. -/
def sketchBranches (cursor : Point α) (count index : Nat) :
    List Node → Sketch α (List (Branch α))
  | [] => Sketch.pure []
  | alternative :: alternatives => do
    let entry := branchEntry style cursor count index
    let finish ← sketch alternative entry
    let branches ← sketchBranches cursor count (index + 1) alternatives
    return ⟨entry, finish.x⟩ :: branches

end

/-- Why a tree with a stray object has no drawing. -/
def undrawable (object : Stray) : String := "Cannot lay out " ++ object.name

/-- Where the track of a diagram starts. -/
def origin : Point α := ⟨style.metrics.originX, style.metrics.originY⟩

/-- The diagram of a tree, or its first stray object. -/
def diagram (node : Node) : Except Stray (Diagram α) :=
  let whole := sketch style node (origin style)
  whole.outcome.map fun _ => .of whole.drawn

end Layout
end Railroad
