/-
# Frames enclose what their groups draw, and no more

The frame of a group has its sides at one distance, the padding, from the hull of what
it encloses: the track inside the group, as high as a box, and everything that was
drawn since the group was entered (`frameBounds_eq_expand`).

A group finds what it encloses on a list that other parts of the drawing add to as well: it
reads back everything behind its mark.  That nothing drawn earlier gets into the frame is
therefore said of drawing on any list (`TightFrame.list`), and not only of sketches.

`TightFrame` says all of this, and that nothing around the group has a part in it;
`group_frame_tight` proves it of every group.
-/

import Railroad.Layout.Session
import Railroad.Proofs.Drawing.Hull
import Railroad.Proofs.Layout.Canvas
import Railroad.Proofs.Layout.Reaches

namespace Railroad
namespace Layout

open Pattern Drawing Bounds

variable {style : Style ℚ}

/-! ### The frame of some primitives -/

/-- The bounds of a frame lie around the hull of what it encloses, at the padding. -/
theorem frameBounds_eq_expand (style : Style ℚ) (drawn : List (Primitive ℚ))
    (cursor finish : Point ℚ) :
    ∃ hull, IsHull (trackBand style (contentStart style cursor) finish cursor.y :: extents drawn)
        hull ∧
      frameBounds style drawn cursor finish = hull.expand style.metrics.groupPadding := by
  have hband := isHull_singleton (trackBand style (contentStart style cursor) finish cursor.y)
  cases h : of? drawn with
  | none =>
      refine ⟨_, ?_, by rw [frameBounds, h]⟩
      rw [extents_eq_nil h]
      exact hband
  | some content => exact ⟨_, hband.union (isHull_of? h), by rw [frameBounds, h]⟩

/-- A frame with given bounds takes up these bounds. -/
theorem frameWith_extent (style : Style ℚ) (bounds : Bounds ℚ) :
    (frameWith style bounds).extent = bounds := by
  simp only [frameWith, Frame.extent, Bounds.width, Bounds.height, add_sub_cancel]

/-- The frame around a hull covers what the hull is around, with room on every side. -/
theorem covers_of_mem_extents (rectangles : List (Bounds ℚ)) {hull : Bounds ℚ}
    {drawn : List (Primitive ℚ)} (h : IsHull (rectangles ++ extents drawn) hull) (margin : ℚ)
    {p : Primitive ℚ} (hp : p ∈ drawn) {b : Bounds ℚ} (hb : p.extent? = some b) :
    (hull.expand margin).Covers (b.expand margin) :=
  (h.covers (List.mem_append_right _ (mem_extents hp hb))).expand margin

/-! ### Groups -/

/-- What a group draws ends with its frame. -/
theorem Draws.getLast?_group {content : Node} {kind : GroupKind} {cursor finish : Point ℚ}
    {drawn : List (Primitive ℚ)} (h : Draws style (.group content kind) cursor drawn finish) :
    ∃ frame, drawn.getLast? = some (.frame frame) := by
  cases h with
  | terminal look => cases look
  | group kind hcontent => exact ⟨_, List.getLast?_concat⟩

/-- How the frame of a group lies around what the group draws from its entry up to the
frame. -/
structure TightFrame (style : Style ℚ) (content : Node) (kind : GroupKind) (cursor : Point ℚ)
    (enclosed : List (Primitive ℚ)) (finish : Point ℚ) (frame : Frame ℚ) : Prop where
  /-- The frame is drawn behind the caption and the content. -/
  encloses : ∃ inside,
    sketch style content ⟨cursor.x + style.metrics.groupPadding, cursor.y⟩ =
      ⟨inside, .ok finish⟩ ∧
    enclosed = captionOf style kind cursor ++ inside
  /-- Its sides lie at the padding outside the hull of all of this and of the track inside
  the group. -/
  tight : ∃ hull,
    IsHull (⟨cursor.x + style.metrics.groupPadding, cursor.y - style.metrics.boxHeight / 2,
      finish.x, cursor.y + style.metrics.boxHeight / 2⟩ :: extents enclosed) hull ∧
    frame.extent = hull.expand style.metrics.groupPadding
  /-- So the padding is a margin around everything that is enclosed, … -/
  margin : ∀ p ∈ enclosed, ∀ extent, p.extent? = some extent →
    frame.extent.Covers (extent.expand style.metrics.groupPadding)
  /-- … the frame of any group inside included. -/
  inner : ∀ before node nodeKind entry,
    Reaches style content ⟨cursor.x + style.metrics.groupPadding, cursor.y⟩ before
      (.group node nodeKind) entry →
    ∃ innerFrame,
      (sketch style (.group node nodeKind) entry).drawn.getLast? = some (.frame innerFrame) ∧
      frame.extent.Covers (innerFrame.extent.expand style.metrics.groupPadding)
  /-- Whatever is on the list when the group is entered stays there, and outside the frame:
  the same is drawn behind it, and the track goes on behind the frame on the same line. -/
  list : ∀ list, (paint style (.group content kind) cursor).on list =
    (.ok ⟨frame.x + frame.width + style.metrics.spacing, cursor.y⟩,
      list ++ (enclosed ++ [.frame frame]))
  /-- So it is in a session, whatever was drawn in it earlier. -/
  session : ∀ earlier, Session.add ⟨style, cursor, earlier⟩ (.group content kind) =
    (⟨style, ⟨frame.x + frame.width + style.metrics.spacing, cursor.y⟩,
      earlier ++ (enclosed ++ [.frame frame])⟩, none)
  /-- The same is drawn wherever in a tree the group starts from here. -/
  tree : ∀ root start before, root.Proper →
    Reaches style root start before (.group content kind) cursor →
    ∃ after, (sketch style root start).drawn = before ++ (enclosed ++ [.frame frame]) ++ after

/-- **A group is framed tightly**, whatever it holds and wherever it is drawn. -/
theorem group_frame_tight (style : Style ℚ) {content : Node} (proper : content.Proper)
    (kind : GroupKind) (cursor : Point ℚ) :
    ∃ enclosed finish frame, TightFrame style content kind cursor enclosed finish frame := by
  obtain ⟨inside, finish, hcontent⟩ := exists_draws style proper (contentStart style cursor)
  have hgroup := Draws.group kind hcontent
  obtain ⟨hull, hhull, hexpand⟩ := frameBounds_eq_expand style
    (captionOf style kind cursor ++ inside) cursor finish
  have hextent := frameWith_extent style (hull.expand style.metrics.groupPadding)
  have hright := congrArg Bounds.maxX hextent
  rw [hexpand, ← hright] at hgroup
  -- from here on the frame counts only by the rectangle that it takes up
  generalize frameWith style (hull.expand style.metrics.groupPadding) = frame at hgroup hextent
  have hmargin : ∀ p ∈ captionOf style kind cursor ++ inside, ∀ extent, p.extent? = some extent →
      frame.extent.Covers (extent.expand style.metrics.groupPadding) := fun p hp extent he => by
    rw [hextent]
    exact covers_of_mem_extents [_] hhull _ hp he
  refine ⟨_, finish, frame, ⟨inside, hcontent.sketch_eq, rfl⟩, ⟨hull, hhull, hextent⟩, hmargin,
    ?inner, ?list, ?session, ?tree⟩
  -- an inner group ends with its frame, which is among the primitives that are enclosed
  case inner =>
    intro before node nodeKind entry hreaches
    obtain ⟨innerDrawn, last, after, hinner, rfl⟩ := hreaches.draws hcontent
    obtain ⟨innerFrame, hlast⟩ := hinner.getLast?_group
    have hmem : Primitive.frame innerFrame ∈ before ++ innerDrawn ++ after :=
      List.mem_append_left _ (List.mem_append_right _ (List.mem_of_getLast? hlast))
    refine ⟨innerFrame, ?_, hmargin _ (List.mem_append_right _ hmem) _ rfl⟩
    rw [hinner.sketch_eq]
    exact hlast
  -- the group reads the list behind its mark, and nothing in front of it
  case list =>
    intro list
    rw [paint_on, hgroup.sketch_eq]
    rfl
  case session =>
    intro earlier
    rw [Session.add, hgroup.sketch_eq]
    rfl
  -- what a node draws from a cursor is unique, so this is the same drawing again
  case tree =>
    intro root start before hproper hreaches
    obtain ⟨drawn, last, hroot⟩ := exists_draws style hproper start
    obtain ⟨groupDrawn, groupLast, after, hdraws, rfl⟩ := hreaches.draws hroot
    obtain ⟨rfl, -⟩ := hdraws.unique hgroup
    exact ⟨after, by rw [hroot.sketch_eq]⟩

/-- The hypothesis of `group_frame_tight` is satisfiable: a lookahead around a loop around
a group. -/
theorem group_frame_tight_nested :
    (Node.oneOrMore (.group (.literal "a") .capturing)).Proper ∧
      ∃ enclosed finish frame,
        TightFrame {} (.oneOrMore (.group (.literal "a") .capturing)) .lookahead ⟨20, 100⟩
          enclosed finish frame :=
  ⟨by decide, group_frame_tight {} (by decide) .lookahead ⟨20, 100⟩⟩

end Layout
end Railroad
