/-
# Drawings do not depend on colours or on what was drawn earlier

The palette gives the colours of a drawing and nothing else: without its colours, what a
node draws with one palette is what it draws with any other (`Draws.uncoloured`).  Nor does
it matter where the track of a diagram starts, once the cursor is given
(`Draws.startingAt`), or what is on the list already (`paint_on`).

`SameButColours` says what this means for two drawings of one node from one cursor, on
two lists and with two palettes, and `same_but_colours` proves it of every node that is
drawn to its end.
-/

import Railroad.Proofs.Drawing.Exact
import Railroad.Proofs.Layout.Unfinished

namespace Railroad

/-! ### Primitives without colours -/

namespace Drawing

variable {α : Type}

/-- A primitive without its fill and stroke colours. -/
def Primitive.uncoloured : Primitive α → Primitive α
  | .box b => .box { b with fill := "", stroke := "" }
  | .caption c => .caption { c with fill := "" }
  | .path p => .path { p with stroke := "" }
  | .arrow a => .arrow { a with fill := "" }
  | .frame f => .frame { f with stroke := "" }

variable [Scalar α]

/-- A primitive takes up the same place without its colours. -/
theorem Primitive.uncoloured_extent? (p : Primitive α) : p.uncoloured.extent? = p.extent? := by
  cases p <;> rfl

/-- Colours take no room. -/
theorem Bounds.of?_map_uncoloured (primitives : List (Primitive α)) :
    of? (primitives.map Primitive.uncoloured) = of? primitives := by
  have hextents : Primitive.extent? ∘ Primitive.uncoloured = @Primitive.extent? α _ :=
    funext Primitive.uncoloured_extent?
  rw [of?, List.filterMap_map, hextents, of?]

end Drawing

namespace Layout

open Pattern Drawing

variable {α : Type} [Scalar α]

/-! ### Styles without colours -/

/-- The palette without colours. -/
def Palette.blank : Palette := ⟨"", "", "", "", "", "", "", "", "", "", ""⟩

/-- The style with the same sizes and distances, and without colours. -/
def Style.plain (style : Style α) : Style α := ⟨style.metrics, .blank⟩

variable (style : Style α)

/-- Without their colours the boxes of a class are those of the plain style. -/
theorem map_uncoloured_itemBoxes (cursor : Point α) (labels : List String) :
    (itemBoxes style cursor labels).map Primitive.uncoloured =
      itemBoxes style.plain cursor labels := by
  induction labels generalizing cursor with
  | nil => rfl
  | cons label labels ih => exact congrArg (List.cons _) (ih _)

/-- So is the curve that leads back, with its arrowhead. -/
theorem map_uncoloured_loop (startX endX y : α) :
    (loop style startX endX y).map Primitive.uncoloured = loop style.plain startX endX y := rfl

/-- So are the curves that lead to an alternative and away from it. -/
theorem map_uncoloured_connectors (cursor : Point α) (exit : α) (branch : Branch α) :
    (connectors style cursor exit branch).map Primitive.uncoloured =
      connectors style.plain cursor exit branch := by
  rw [connectors, connectors]
  split <;> rfl

/-- So is the caption of a group. -/
theorem map_uncoloured_captionOf (kind : GroupKind) (cursor : Point α) :
    (captionOf style kind cursor).map Primitive.uncoloured = captionOf style.plain kind cursor := by
  rw [captionOf, captionOf]
  split <;> rfl

/-- A frame lies around the extents of what it encloses, so colours have no part in it. -/
theorem frameBounds_map_uncoloured (drawn : List (Primitive α)) (cursor finish : Point α) :
    frameBounds style.plain (drawn.map Primitive.uncoloured) cursor finish =
      frameBounds style drawn cursor finish := by
  rw [frameBounds, frameBounds, Bounds.of?_map_uncoloured]
  rfl

variable {style}

/-- A terminal has the same label without its colours. -/
theorem IsTerminal.blank {palette : Palette} {node : Node} {label fill stroke : String}
    (look : IsTerminal palette node label fill stroke) :
    IsTerminal .blank node label "" "" := by
  cases look with
  | literal text => exact .literal text
  | escape text => exact .escape text
  | anyChar => exact .anyChar
  | anchorStart => exact .anchorStart
  | anchorEnd => exact .anchorEnd

/-- **What is drawn without colours is what a style without colours draws**, and the
track goes on in the same place. -/
theorem Draws.uncoloured {node : Node} {cursor finish : Point α} {drawn : List (Primitive α)}
    (h : Draws style node cursor drawn finish) :
    Draws style.plain node cursor (drawn.map Primitive.uncoloured) finish := by
  induction h with
  | terminal look cursor => exact @Draws.terminal α _ style.plain _ _ _ _ look.blank cursor
  | charClass items negated cursor =>
      rw [List.map_cons, map_uncoloured_itemBoxes]
      exact .charClass items negated cursor
  | nil cursor => exact .nil cursor
  | cons _ _ ihItem ihItems =>
      rw [List.map_append]
      exact .cons ihItem ihItems
  -- the connections are drawn in the plain style as the alternatives are
  | choice drawn finish _ ih =>
      rw [List.map_append, List.map_flatMap, List.map_flatMap]
      simp only [map_uncoloured_connectors]
      exact .choice (fun i => (drawn i).map Primitive.uncoloured) finish ih
  | optional _ ih =>
      rw [List.map_append]
      exact .optional ih
  | zeroOrMore _ ih =>
      rw [List.map_append, List.map_cons, map_uncoloured_loop]
      exact .zeroOrMore ih
  | oneOrMore _ ih =>
      rw [List.map_append, map_uncoloured_loop]
      exact .oneOrMore ih
  | counted quantifier _ ih => exact .counted quantifier ih
  -- the frame is around the uncoloured content where it was around the coloured one
  | @group content cursor finish drawn kind _ ih =>
      have hgroup := Draws.group kind ih
      rw [← map_uncoloured_captionOf, ← List.map_append, frameBounds_map_uncoloured] at hgroup
      rw [List.map_append]
      exact hgroup
  | empty cursor => exact .empty cursor

/-! ### The start of the track -/

/-- The style of diagrams that start at a given place. -/
def Style.startingAt (style : Style α) (start : Point α) : Style α :=
  ⟨{ style.metrics with originX := start.x, originY := start.y }, style.palette⟩

/-- Where the drawing starts has no part in the boxes of a class. -/
theorem itemBoxes_startingAt (start cursor : Point α) (labels : List String) :
    itemBoxes (style.startingAt start) cursor labels = itemBoxes style cursor labels := by
  induction labels generalizing cursor with
  | nil => rfl
  | cons label labels ih => exact congrArg (List.cons _) (ih _)

/-- A node is drawn from a cursor, wherever a diagram would start. -/
theorem Draws.startingAt {node : Node} {cursor finish : Point α} {drawn : List (Primitive α)}
    (h : Draws style node cursor drawn finish) (start : Point α) :
    Draws (style.startingAt start) node cursor drawn finish := by
  induction h with
  | terminal look cursor =>
      exact @Draws.terminal α _ (style.startingAt start) _ _ _ _ look cursor
  | charClass items negated cursor =>
      rw [← itemBoxes_startingAt start]
      exact .charClass items negated cursor
  | nil cursor => exact .nil cursor
  | cons _ _ ihItem ihItems => exact .cons ihItem ihItems
  -- no rule reads where the whole drawing starts: each starts from its own cursor
  | choice drawn finish _ ih => exact .choice drawn finish ih
  | optional _ ih => exact .optional ih
  | zeroOrMore _ ih => exact .zeroOrMore ih
  | oneOrMore _ ih => exact .oneOrMore ih
  | counted quantifier _ ih => exact .counted quantifier ih
  | group kind _ ih => exact .group kind ih
  | empty cursor => exact .empty cursor

/-! ### Two drawings of one node -/

/-- How a node is drawn from one cursor on two lists and with two palettes: what is added
to the first list, and what to the second. -/
structure SameButColours (metrics : Metrics α) (palette palette' : Palette) (node : Node)
    (cursor finish : Point α) (list list' added added' : List (Primitive α)) : Prop where
  /-- Both lists stay and are added to, and the track goes on in the same place. -/
  first : (paint ⟨metrics, palette⟩ node cursor).on list = (.ok finish, list ++ added)
  second : (paint ⟨metrics, palette'⟩ node cursor).on list' = (.ok finish, list' ++ added')
  /-- The same is added but for the colours, … -/
  uncoloured : added.map Primitive.uncoloured = added'.map Primitive.uncoloured
  /-- … and with one palette the very same. -/
  same : palette = palette' → added = added'
  /-- A session adds it, whatever was drawn in it, … -/
  session : Session.add ⟨⟨metrics, palette⟩, cursor, list⟩ node =
    (⟨⟨metrics, palette⟩, finish, list ++ added⟩, none)
  /-- … and it is the whole diagram of the node where the track starts at the cursor. -/
  diagram : diagram (Style.startingAt ⟨metrics, palette⟩ cursor) node = .ok (.of added)

/-- **What a node adds to a drawing depends on its cursor and the metrics alone**, but for
the colours, which the palette gives. -/
theorem same_but_colours (metrics : Metrics α) (palette palette' : Palette) (node : Node)
    (cursor finish : Point α) (list list' : List (Primitive α))
    (h : ((paint ⟨metrics, palette⟩ node cursor).on list).1 = .ok finish) :
    ∃ added added',
      SameButColours metrics palette palette' node cursor finish list list' added added' := by
  rw [paint_on] at h
  have hproper := proper_of_outcome h
  obtain ⟨added, last, hadded⟩ := exists_draws ⟨metrics, palette⟩ hproper cursor
  obtain ⟨added', last', hadded'⟩ := exists_draws ⟨metrics, palette'⟩ hproper cursor
  -- both drawings are one without their colours, so they end at one cursor
  obtain ⟨hplain, rfl⟩ := hadded.uncoloured.unique hadded'.uncoloured
  rw [hadded.sketch_eq] at h
  obtain rfl := Except.ok.inj h
  refine ⟨added, added', ?_, ?_, hplain, ?same, ?session, ?diagram⟩
  · rw [paint_on, hadded.sketch_eq]
  · rw [paint_on, hadded'.sketch_eq]
  case same =>
    rintro rfl
    exact (hadded.unique hadded').1
  case session => rw [Session.add, hadded.sketch_eq]
  case diagram => exact Draws.diagram_eq (hadded.startingAt cursor)

/-- The hypothesis of `same_but_colours` is satisfiable: a lookahead around a class, drawn
on an empty list, and without colours behind a caption. -/
theorem same_but_colours_lookahead :
    ((paint ⟨{}, {}⟩ (.group (.charClass [.literal "a"] false) .lookahead)
        (⟨20, 100⟩ : Point ℚ)).on []).1 = .ok ⟨864 / 5, 100⟩ ∧
      ∃ added added', SameButColours {} {} .blank
        (.group (.charClass [.literal "a"] false) .lookahead) (⟨20, 100⟩ : Point ℚ)
        ⟨864 / 5, 100⟩ [] [.caption ⟨0, 0, "earlier", 11, .start, "#000"⟩] added added' := by
  have hfinish : ((paint ⟨{}, {}⟩ (.group (.charClass [.literal "a"] false) .lookahead)
      (⟨20, 100⟩ : Point ℚ)).on []).1 = .ok ⟨864 / 5, 100⟩ := by decide +kernel
  exact ⟨hfinish, same_but_colours {} {} .blank _ _ _ [] _ hfinish⟩

end Layout
end Railroad
