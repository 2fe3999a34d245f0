/-
# Drawing on one list

All parts of a drawing can add their primitives to one list, at its end.  The list is
there when a node is entered, with whatever was drawn before, and stays when a stray
object ends the drawing.

| what is done | on the list |
| --- | --- |
| a piece is drawn | its primitives are added |
| a node is entered | nothing |
| a group is entered | its mark is noted: how long the list is |
| the content of a group is drawn | everything behind the mark is read back, and framed |
| a stray object is met | nothing more |

A group alone reads the list, so it alone could take up something that was drawn before
it.  It does not: drawing on a list adds to it what the sketch of the tree draws, and ends
as the sketch does, whatever is on the list (`paint_eq_add`).
-/

import Railroad.Layout.Draw

namespace Railroad
namespace Layout

open Pattern Drawing

/-- Drawing on a list of primitives, which outlasts a stray object. -/
abbrev Canvas (α : Type) : Type → Type := ExceptT Stray (StateM (List (Primitive α)))

variable {α β γ : Type}

namespace Canvas

/-- What comes of drawing on a list, and the list after it. -/
def on (canvas : Canvas α β) (list : List (Primitive α)) :
    Except Stray β × List (Primitive α) := canvas.run list

/-- Adds what a sketch draws, and ends as the sketch does. -/
def add (sketch : Sketch α β) : Canvas α β := do
  modify (· ++ sketch.drawn)
  sketch.outcome

/-- What is added stands behind what is on the list, also where it ends at a stray object. -/
theorem add_on (sketch : Sketch α β) (list : List (Primitive α)) :
    (add sketch).on list = (sketch.outcome, list ++ sketch.drawn) := by
  obtain ⟨drawn, object | value⟩ := sketch <;> rfl

/-- Two ways of drawing are one if they do the same to every list. -/
@[ext] theorem ext {canvas other : Canvas α β} (h : ∀ list, canvas.on list = other.on list) :
    canvas = other := funext h

/-- A sketch that draws nothing adds nothing. -/
@[simp] theorem add_pure (value : β) : add (Pure.pure value : Sketch α β) = Pure.pure value := by
  ext1 list
  rw [add_on, Sketch.pure_eq, List.append_nil]
  rfl

/-- Sketches one behind the other are drawn one behind the other. -/
@[simp] theorem add_bind (first : Sketch α β) (next : β → Sketch α γ) :
    add (first >>= next) = add first >>= fun value => add (next value) := by
  ext1 list
  obtain ⟨drawn, object | value⟩ := first
  · rfl
  · rw [add_on, Sketch.bind_ok, ← List.append_assoc, ← add_on (next value)]
    rfl

/-- What stands behind the mark is what was drawn since. -/
theorem mark_add (sketch : Sketch α β) (next : List (Primitive α) → β → Canvas α γ) :
    (do
      let mark := (← get).length
      let value ← add sketch
      let drawn := (← get).drop mark
      next drawn value) = add sketch >>= next sketch.drawn := by
  ext1 list
  obtain ⟨drawn, object | value⟩ := sketch
  · rfl
  · have hdrawn : (list ++ drawn).drop list.length = drawn := List.drop_left
    change (next ((list ++ drawn).drop list.length) value).on _ = (next drawn value).on _
    rw [hdrawn]

end Canvas

variable [Scalar α] (style : Style α)

mutual

/-- Draws a node on a list from the cursor, and gives the cursor behind it. -/
def paint : Node → Point α → Canvas α (Point α)
  | .literal text, cursor =>
    .add (terminal style (literalLabel text) style.palette.literal style.palette.literalStroke
      cursor)
  | .escape text, cursor =>
    .add (terminal style (escapeLabel text) style.palette.escape style.palette.escapeStroke cursor)
  | .anyChar, cursor =>
    .add (terminal style "any character" style.palette.escape style.palette.escapeStroke cursor)
  | .anchorStart, cursor =>
    .add (terminal style "start of line" style.palette.anchor style.palette.anchorStroke cursor)
  | .anchorEnd, cursor =>
    .add (terminal style "end of line" style.palette.anchor style.palette.anchorStroke cursor)
  | .charClass items negated, cursor => .add (classSketch style items negated cursor)
  | .sequence items, cursor => paintItems items cursor
  | .choice alternatives, cursor => do
    let branches ← paintBranches cursor alternatives.length 0 alternatives
    Canvas.add (joined style cursor branches)
  | .optional item, cursor => do
    let finish ← paint item (cursor.withX (cursor.x + style.metrics.branchOffset))
    Canvas.add (Sketch.draw [bypass style cursor.x finish.x cursor.y])
    return finish
  | .zeroOrMore item, cursor => do
    let start := cursor.withX (cursor.x + style.metrics.branchOffset)
    let finish ← paint item start
    Canvas.add (Sketch.draw (bypass style cursor.x finish.x cursor.y ::
      loop style start.x finish.x cursor.y))
    return finish
  | .oneOrMore item, cursor => do
    let finish ← paint item cursor
    Canvas.add (Sketch.draw (loop style cursor.x finish.x cursor.y))
    return finish
  | .counted item quantifier, cursor => do
    Canvas.add (Sketch.draw [countCaption style quantifier cursor])
    paint item cursor
  | .group content kind, cursor => do
    let mark := (← get).length
    Canvas.add (Sketch.draw (captionOf style kind cursor))
    let finish ← paint content (contentStart style cursor)
    let drawn := (← get).drop mark
    Canvas.add (framed style drawn cursor finish)
  | .empty, cursor => return cursor
  | .stray object, _ => throw object

/-- Draws the items of a sequence on a list. -/
def paintItems : List Node → Point α → Canvas α (Point α)
  | [], cursor => return cursor
  | item :: items, cursor => paint item cursor >>= paintItems items

/-- Draws the alternatives of a choice on a list, from the given index on. -/
def paintBranches (cursor : Point α) (count index : Nat) :
    List Node → Canvas α (List (Branch α))
  | [] => return []
  | alternative :: alternatives => do
    let entry := branchEntry style cursor count index
    let finish ← paint alternative entry
    let branches ← paintBranches cursor count (index + 1) alternatives
    return ⟨entry, finish.x⟩ :: branches

end

mutual

/-- **Drawing on a list adds the sketch of the tree to it**, whatever is on the list. -/
theorem paint_eq_add : ∀ (node : Node) (cursor : Point α),
    paint style node cursor = .add (sketch style node cursor)
  | .literal text, cursor => by rw [paint, sketch]
  | .escape text, cursor => by rw [paint, sketch]
  | .anyChar, cursor => by rw [paint, sketch]
  | .anchorStart, cursor => by rw [paint, sketch]
  | .anchorEnd, cursor => by rw [paint, sketch]
  | .charClass items negated, cursor => by rw [paint, sketch]
  | .sequence items, cursor => by rw [paint, sketch, paintItems_eq_add]
  | .choice alternatives, cursor => by
      rw [paint, sketch, paintBranches_eq_add, Canvas.add_bind]
  | .optional item, cursor => by
      rw [paint, sketch, paint_eq_add item]
      simp only [Canvas.add_bind, Canvas.add_pure]
  | .zeroOrMore item, cursor => by
      rw [paint, sketch, paint_eq_add item]
      simp only [Canvas.add_bind, Canvas.add_pure]
  | .oneOrMore item, cursor => by
      rw [paint, sketch, paint_eq_add item]
      simp only [Canvas.add_bind, Canvas.add_pure]
  | .counted item quantifier, cursor => by
      rw [paint, sketch, paint_eq_add item]
      simp only [Canvas.add_bind]
  -- the only case that reads the list: what is behind the mark is what the group has drawn
  | .group content kind, cursor => by
      have hmark := Canvas.mark_add
        (Sketch.draw (captionOf style kind cursor) >>= fun _ =>
          sketch style content (contentStart style cursor))
        (fun drawn finish => .add (framed style drawn cursor finish))
      rw [paint, sketch, paint_eq_add content, Canvas.add_bind, ← hmark]
      simp only [Canvas.add_bind, bind_assoc]
  | .empty, cursor => by
      rw [paint, sketch]
      exact (Canvas.add_pure cursor).symm
  -- nothing is added, and what is on the list stays
  | .stray object, cursor => by
      rw [paint, sketch]
      ext1 list
      rw [Canvas.add_on, Sketch.stop, List.append_nil]
      rfl

/-- The items of a sequence are added one behind the other, as their sketch is made. -/
theorem paintItems_eq_add : ∀ (items : List Node) (cursor : Point α),
    paintItems style items cursor = .add (sketchItems style items cursor)
  | [], cursor => by
      rw [paintItems, sketchItems]
      exact (Canvas.add_pure cursor).symm
  | item :: items, cursor => by
      have hitems : paintItems style items = fun middle => .add (sketchItems style items middle) :=
        funext (paintItems_eq_add items)
      rw [paintItems, sketchItems, paint_eq_add item, Canvas.add_bind, hitems]

/-- So are the alternatives of a choice, whose cursors are collected on the way. -/
theorem paintBranches_eq_add (cursor : Point α) (count : Nat) :
    ∀ (alternatives : List Node) (index : Nat),
      paintBranches style cursor count index alternatives =
        .add (sketchBranches style cursor count index alternatives)
  | [], index => by
      rw [paintBranches, sketchBranches]
      exact (Canvas.add_pure []).symm
  | alternative :: alternatives, index => by
      rw [paintBranches, sketchBranches, paint_eq_add alternative,
        paintBranches_eq_add cursor count alternatives]
      simp only [Canvas.add_bind, Canvas.add_pure]

end

/-- Drawing on a list leaves what is on it, and adds the sketch. -/
theorem paint_on (node : Node) (cursor : Point α) (list : List (Primitive α)) :
    (paint style node cursor).on list =
      ((sketch style node cursor).outcome, list ++ (sketch style node cursor).drawn) := by
  rw [paint_eq_add, Canvas.add_on]

end Layout
end Railroad
