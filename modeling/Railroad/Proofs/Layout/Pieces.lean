/-
# The pieces of a drawing

Boxes are drawn by terminals and classes, frames by groups.  The connectors of a
choice, bypasses, loops and captions are neither.  So whatever picks nothing but boxes
and frames out of a drawing passes over these pieces, and finds in the drawing what it
finds in its parts (`PicksSolids`).  Over connectors, bypasses and loops passes whatever
picks no paths and arrowheads (`SkipsPaths`).
-/

import Railroad.Proofs.Layout.Draws

namespace Railroad
namespace Drawing

variable {α : Type}

/-- The box that a primitive is, if it is one. -/
def Primitive.box? : Primitive α → Option (Box α)
  | .box b => some b
  | _ => none

/-- The frame that a primitive is, if it is one. -/
def Primitive.frame? : Primitive α → Option (Frame α)
  | .frame f => some f
  | _ => none

/-- Where a box or a frame ends on the right. -/
def Primitive.right? [Scalar α] : Primitive α → Option α
  | .box b => some (b.x + b.width)
  | .frame f => some (f.x + f.width)
  | _ => none

/-- The boxes among some primitives. -/
abbrev boxes (drawn : List (Primitive α)) : List (Box α) := drawn.filterMap Primitive.box?

/-- The frames among some primitives. -/
abbrev frames (drawn : List (Primitive α)) : List (Frame α) := drawn.filterMap Primitive.frame?

/-- Where the boxes and the frames among some primitives end on the right. -/
abbrev rights [Scalar α] (drawn : List (Primitive α)) : List α := drawn.filterMap Primitive.right?

theorem box?_eq_some_iff {p : Primitive α} {b : Box α} : p.box? = some b ↔ p = .box b := by
  constructor
  · intro h
    cases p <;> cases h
    rfl
  · rintro rfl
    rfl

/-- The boxes of a drawing are the primitives that are boxes. -/
theorem mem_boxes {drawn : List (Primitive α)} {b : Box α} : b ∈ boxes drawn ↔ .box b ∈ drawn := by
  simp only [boxes, List.mem_filterMap, box?_eq_some_iff, exists_eq_right]

/-- A box at a place of a drawing is one of its boxes. -/
theorem mem_boxes_of_getElem? {drawn : List (Primitive α)} {place : Nat} {b : Box α}
    (h : drawn[place]? = some (.box b)) : b ∈ boxes drawn := mem_boxes.2 (List.mem_of_getElem? h)

/-- What holds of any two boxes of a drawing, in the order in which they are drawn. -/
theorem pairwise_boxes_iff {rel : Box α → Box α → Prop} {drawn : List (Primitive α)} :
    (boxes drawn).Pairwise rel ↔ ∀ (place place' : Nat) (b b' : Box α), place < place' →
      drawn[place]? = some (.box b) → drawn[place']? = some (.box b') → rel b b' := by
  rw [boxes, List.pairwise_filterMap, List.pairwise_iff_getElem]
  constructor
  · intro h place place' b b' hlt hb hb'
    obtain ⟨hplace, heq⟩ := List.getElem?_eq_some_iff.1 hb
    obtain ⟨hplace', heq'⟩ := List.getElem?_eq_some_iff.1 hb'
    exact h place place' hplace hplace' hlt b (box?_eq_some_iff.2 heq) b' (box?_eq_some_iff.2 heq')
  · intro h place place' hplace hplace' hlt b hb b' hb'
    refine h place place' b b' hlt ?_ ?_
    · rw [List.getElem?_eq_getElem hplace, box?_eq_some_iff.1 hb]
    · rw [List.getElem?_eq_getElem hplace', box?_eq_some_iff.1 hb']

/-- The frames of a drawing are the primitives that are frames. -/
theorem mem_frames {drawn : List (Primitive α)} {f : Frame α} :
    f ∈ frames drawn ↔ .frame f ∈ drawn := by
  rw [frames, List.mem_filterMap]
  constructor
  · rintro ⟨p, hp, h⟩
    cases p <;> cases h
    exact hp
  · exact fun h => ⟨_, h, rfl⟩

/-- The right side of a box counts among those of the drawing. -/
theorem mem_rights_of_mem_boxes [Scalar α] {drawn : List (Primitive α)} {b : Box α}
    (hb : b ∈ boxes drawn) : b.x + b.width ∈ rights drawn :=
  List.mem_filterMap.2 ⟨.box b, mem_boxes.1 hb, rfl⟩

/-- The right side of a frame counts among those of the drawing. -/
theorem mem_rights_of_mem_frames [Scalar α] {drawn : List (Primitive α)} {f : Frame α}
    (hf : f ∈ frames drawn) : f.x + f.width ∈ rights drawn :=
  List.mem_filterMap.2 ⟨.frame f, mem_frames.1 hf, rfl⟩

/-- The right end of a box or a frame is that of its extent. -/
theorem extent_of_right? [Scalar α] {p : Primitive α} {x : α} (h : p.right? = some x) :
    ∃ b, p.extent? = some b ∧ b.maxX = x := by
  cases p with
  | box b => exact ⟨b.extent, rfl, Option.some.inj h⟩
  | frame f => exact ⟨f.extent, rfl, Option.some.inj h⟩
  | caption c => cases h
  | path c => cases h
  | arrow a => cases h

/-- A way to pick primitives that picks neither captions nor paths nor arrowheads. -/
class PicksSolids {β : Type} (pick : Primitive α → Option β) : Prop where
  caption (c : Caption α) : pick (.caption c) = none
  path (c : Connector α) : pick (.path c) = none
  arrow (a : Arrow α) : pick (.arrow a) = none

/-- A way to pick primitives that picks neither paths nor arrowheads. -/
class SkipsPaths {β : Type} (pick : Primitive α → Option β) : Prop where
  path (c : Connector α) : pick (.path c) = none
  arrow (a : Arrow α) : pick (.arrow a) = none

instance {β : Type} {pick : Primitive α → Option β} [PicksSolids pick] : SkipsPaths pick :=
  ⟨PicksSolids.path, PicksSolids.arrow⟩

instance : PicksSolids (Primitive.box? : Primitive α → _) :=
  ⟨fun _ => rfl, fun _ => rfl, fun _ => rfl⟩

instance [Scalar α] : PicksSolids (Primitive.right? : Primitive α → _) :=
  ⟨fun _ => rfl, fun _ => rfl, fun _ => rfl⟩

@[simp] theorem box?_frame (f : Frame α) : Primitive.box? (.frame f) = none := rfl

end Drawing

namespace Layout

open Pattern Drawing

variable {α : Type} [Scalar α] {style : Style α} {cursor : Point α}

/-! ### Pieces without boxes and frames -/

section

variable {β : Type} {pick : Primitive α → Option β}

section

variable [PicksSolids pick] (drawn : List (Primitive α))

omit [Scalar α] in
/-- A caption is never picked. -/
@[simp] theorem filterMap_caption_cons (c : Caption α) :
    (Primitive.caption c :: drawn).filterMap pick = drawn.filterMap pick :=
  List.filterMap_cons_none (PicksSolids.caption c)

@[simp] theorem filterMap_countCaption_cons (quantifier : String) :
    (countCaption style quantifier cursor :: drawn).filterMap pick = drawn.filterMap pick :=
  List.filterMap_cons_none (PicksSolids.caption _)

/-- Nor is the caption of a group, if it has one, … -/
@[simp] theorem filterMap_captionOf (kind : GroupKind) :
    (captionOf style kind cursor).filterMap pick = [] := by
  rw [captionOf]
  split
  · rfl
  · simp only [List.filterMap_cons, PicksSolids.caption, List.filterMap_nil]

end

variable [SkipsPaths pick]

@[simp] theorem filterMap_bypass_cons (startX endX y : α) (drawn : List (Primitive α)) :
    (bypass style startX endX y :: drawn).filterMap pick = drawn.filterMap pick :=
  List.filterMap_cons_none (SkipsPaths.path _)

/-- … nor the way back, … -/
@[simp] theorem filterMap_loop (startX endX y : α) :
    (loop style startX endX y).filterMap pick = [] := by
  simp only [loop, curve, List.filterMap_cons, SkipsPaths.path, SkipsPaths.arrow,
    List.filterMap_nil]

/-- … nor a connection of an alternative. -/
theorem filterMap_connectors (exit : α) (branch : Branch α) :
    (connectors style cursor exit branch).filterMap pick = [] := by
  rw [connectors]
  split <;> simp only [line, curve, List.filterMap_cons, SkipsPaths.path, List.filterMap_nil]

/-- Nothing is picked from the connections of a choice. -/
@[simp] theorem filterMap_flatMap_connectors (exit : α) (branches : List (Branch α)) :
    (branches.flatMap (connectors style cursor exit)).filterMap pick = [] := by
  rw [List.filterMap_flatMap]
  simp only [filterMap_connectors, List.flatMap_eq_nil_iff, implies_true]

end

/-! ### Rows of boxes -/

/-- A box of a class has the class's track line in its middle. -/
theorem mem_itemBoxes {labels : List String} {p : Primitive α}
    (h : p ∈ itemBoxes style cursor labels) :
    ∃ x label, p = boxAt style (cursor.withX x) (itemWidth style label) label
      style.palette.charset style.palette.charsetStroke := by
  induction labels generalizing cursor with
  | nil => cases h
  | cons label labels ih =>
      rcases List.mem_cons.1 h with rfl | h
      · exact ⟨cursor.x, label, rfl⟩
      · obtain ⟨x, label, rfl⟩ := ih h
        exact ⟨x, label, rfl⟩

end Layout
end Railroad
