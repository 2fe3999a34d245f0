/-
# The bounds cover what is really drawn

A curve is drawn through points that are not its control points, so it is not plain that
the bounds of a diagram, which are taken from the points of its paths, cover it.  They do:

| | why |
| --- | --- |
| every path has points | two, or a start and three for each segment (`Draws.isTraced`) |
| so every primitive has an extent | and the bounds are the hull of all of them (`isHull_of?`) |
| a curve stays in the extent of its path | `Covers.containsCurve` |
| and a frame around what it encloses | if the padding is not negative |

Only a blank tree draws nothing, one of empty trees in rows (`Draws.eq_nil_iff`), and among
the trees of patterns that is the tree of the empty pattern alone.
-/

import Railroad.Proofs.Drawing.Curve
import Railroad.Proofs.Layout.Frames
import Railroad.Proofs.Layout.Pieces
import Railroad.Proofs.Pattern.Blank

namespace Railroad

/-! ### The points of paths -/

namespace Drawing

variable {α : Type}

/-- Whether a path has the points of its kind: two if it is straight, and if it is curved,
its start and three for each of its segments, of which there is at least one. -/
def Connector.IsTraced (path : Connector α) : Prop :=
  if path.curved then ∃ k, 1 ≤ k ∧ path.points.length = 3 * k + 1 else path.points.length = 2

/-- Whether a primitive has the points of its kind if it is a path. -/
def Primitive.IsTraced : Primitive α → Prop
  | .path c => c.IsTraced
  | _ => True

/-- A path that is traced has a first point. -/
theorem Connector.IsTraced.points_ne_nil {path : Connector α} (h : path.IsTraced) :
    path.points ≠ [] := by
  intro hnil
  rw [IsTraced, hnil] at h
  split at h
  · obtain ⟨k, -, hlength⟩ := h
    cases hlength
  · cases h

/-- A path is straight with two points, or curved with whole segments. -/
theorem Connector.IsTraced.straight_or_curved {path : Connector ℚ} (h : path.IsTraced) :
    path.curved = false ∧ path.points.length = 2 ∨
    path.curved = true ∧ ∃ k, 1 ≤ k ∧ path.points.length = 3 * k + 1 ∧
      (segments path.points).length = k := by
  rw [IsTraced] at h
  split at h
  · rename_i hcurved
    obtain ⟨k, hpos, hlength⟩ := h
    refine .inr ⟨hcurved, k, hpos, hlength, ?_⟩
    rw [length_segments, hlength]
    omega
  · rename_i hstraight
    exact .inl ⟨Bool.eq_false_iff.2 hstraight, h⟩

/-- A path with points takes up room, and so does any other primitive. -/
theorem Primitive.IsTraced.exists_extent [Scalar α] {p : Primitive α} (h : p.IsTraced) :
    ∃ extent, p.extent? = some extent := by
  cases p with
  | path c =>
      obtain ⟨q, points, hpoints⟩ := List.exists_cons_of_ne_nil h.points_ne_nil
      exact ⟨_, by rw [extent?, Connector.extent?, hpoints, List.map_cons, Bounds.unionAll]⟩
  | _ => exact ⟨_, rfl⟩

end Drawing

namespace Layout

open Pattern Drawing Bounds

section

variable {α : Type} [Scalar α] {style : Style α} {node : Node} {cursor finish : Point α}
  {drawn : List (Primitive α)}

/-- A curve through the points of whole segments. -/
theorem isTraced_curve {points : List (Point α)} {k : Nat} (hpos : 1 ≤ k)
    (h : points.length = 3 * k + 1) : (curve style points).IsTraced := ⟨k, hpos, h⟩

/-- A bypass is a curve of two segments. -/
theorem isTraced_bypass (startX endX y : α) : (bypass style startX endX y).IsTraced :=
  isTraced_curve (k := 2) (by decide) rfl

/-- So is the way back, but for its arrowhead. -/
theorem isTraced_loop (startX endX y : α) : ∀ p ∈ loop style startX endX y, p.IsTraced :=
  List.forall_mem_cons.2 ⟨isTraced_curve (k := 2) (by decide) rfl,
    List.forall_mem_singleton.2 trivial⟩

/-- The connections of an alternative are straight lines or single curves. -/
theorem isTraced_connectors (exit : α) (branch : Branch α) :
    ∀ p ∈ connectors style cursor exit branch, p.IsTraced := by
  rw [connectors]
  split
  · exact List.forall_mem_cons.2 ⟨rfl, List.forall_mem_singleton.2 rfl⟩
  · exact List.forall_mem_cons.2 ⟨isTraced_curve (k := 1) (by decide) rfl,
      List.forall_mem_singleton.2 (isTraced_curve (k := 1) (by decide) rfl)⟩

theorem isTraced_itemBoxes (labels : List String) :
    ∀ p ∈ itemBoxes style cursor labels, p.IsTraced := by
  intro p hp
  obtain ⟨x, label, rfl⟩ := mem_itemBoxes hp
  trivial

/-- A caption is no path, so nothing is asked of it. -/
theorem isTraced_captionOf (kind : GroupKind) : ∀ p ∈ captionOf style kind cursor, p.IsTraced := by
  rw [captionOf]
  split
  · exact List.forall_mem_nil _
  · exact List.forall_mem_singleton.2 trivial

/-- **Every path that is drawn has the points of its kind.** -/
theorem Draws.isTraced (h : Draws style node cursor drawn finish) : ∀ p ∈ drawn, p.IsTraced := by
  induction h with
  | terminal look cursor => exact List.forall_mem_singleton.2 trivial
  | charClass items negated cursor =>
      exact List.forall_mem_cons.2 ⟨trivial, isTraced_itemBoxes _⟩
  | nil cursor => exact List.forall_mem_nil _
  | cons _ _ ihItem ihItems => exact List.forall_mem_append.2 ⟨ihItem, ihItems⟩
  -- a primitive of a choice belongs to an alternative or connects one
  | @choice alternatives cursor drawn finish _ ih =>
      refine List.forall_mem_append.2 ⟨fun p hp => ?_, fun p hp => ?_⟩
      · obtain ⟨i, hi, hp⟩ := List.mem_flatMap.1 hp
        have hlt := List.mem_range.1 hi
        exact ih i _ (List.getElem?_eq_getElem hlt) p hp
      · obtain ⟨branch, -, hp⟩ := List.mem_flatMap.1 hp
        exact isTraced_connectors _ branch p hp
  | optional _ ih =>
      exact List.forall_mem_append.2 ⟨ih, List.forall_mem_singleton.2 (isTraced_bypass ..)⟩
  | zeroOrMore _ ih =>
      exact List.forall_mem_append.2
        ⟨ih, List.forall_mem_cons.2 ⟨isTraced_bypass .., isTraced_loop _ _ _⟩⟩
  | oneOrMore _ ih => exact List.forall_mem_append.2 ⟨ih, isTraced_loop _ _ _⟩
  | counted _ _ ih => exact List.forall_mem_cons.2 ⟨trivial, ih⟩
  | group kind _ ih =>
      exact List.forall_mem_append.2 ⟨List.forall_mem_append.2 ⟨isTraced_captionOf kind, ih⟩,
        List.forall_mem_singleton.2 trivial⟩
  | empty cursor => exact List.forall_mem_nil _

/-! ### Trees that draw nothing -/

/-- Every alternative is connected. -/
theorem connectors_ne_nil (exit : α) (branch : Branch α) :
    connectors style cursor exit branch ≠ [] := by
  rw [connectors]
  split <;> exact List.cons_ne_nil _ _

/-- **Only blank trees draw nothing.** -/
theorem Draws.eq_nil_iff (h : Draws style node cursor drawn finish) :
    drawn = [] ↔ node.IsBlank := by
  induction h with
  | terminal look cursor =>
      refine iff_of_false (List.cons_ne_nil _ _) fun blank => ?_
      cases look <;> cases blank
  | charClass items negated cursor => exact iff_of_false (List.cons_ne_nil _ _) (by rintro ⟨⟩)
  | nil cursor => exact iff_of_true rfl (.sequence (List.forall_mem_nil _))
  | cons _ _ ihItem ihItems =>
      rw [List.append_eq_nil_iff, ihItem, ihItems, Node.isBlank_cons_iff]
  | @choice alternatives cursor drawn finish _ _ =>
      rw [Node.isBlank_choice_iff]
      constructor
      · -- Every alternative has connectors.
        intro hnil
        have hjoins := List.flatMap_eq_nil_iff.1 (List.append_eq_nil_iff.1 hnil).2
        by_contra hne
        have hmem := List.mem_range.2 (List.length_pos_iff.2 hne)
        exact connectors_ne_nil _ _ (hjoins _ (List.mem_map_of_mem hmem))
      · rintro rfl
        rfl
  -- whatever is around an item is drawn even if the item is blank
  | optional _ _ => exact iff_of_false (by simp) (by rintro ⟨⟩)
  | zeroOrMore _ _ => exact iff_of_false (by simp) (by rintro ⟨⟩)
  | oneOrMore _ _ => exact iff_of_false (by simp [loop]) (by rintro ⟨⟩)
  | counted _ _ _ => exact iff_of_false (List.cons_ne_nil _ _) (by rintro ⟨⟩)
  | group _ _ _ => exact iff_of_false (by simp) (by rintro ⟨⟩)
  | empty cursor => exact iff_of_true rfl .empty

end

/-! ### The bounds of a diagram -/

section

variable {primitives : List (Primitive ℚ)}

/-- A rectangle that covers the extents of traced primitives contains their curves. -/
theorem containsCurves_of_covers {bounds : Bounds ℚ} (h : ∀ p ∈ primitives, p.IsTraced)
    (hcovers : ∀ p ∈ primitives, ∀ extent, p.extent? = some extent → bounds.Covers extent) :
    bounds.ContainsCurves primitives := by
  refine containsCurves fun p hp => ?_
  obtain ⟨extent, hextent⟩ := (h p hp).exists_extent
  exact ⟨extent, hextent, hcovers p hp extent hextent⟩

/-- The bounds of traced primitives are the hull of their extents, if there are any. -/
theorem isHull_bounds (hne : primitives ≠ []) (h : ∀ p ∈ primitives, p.IsTraced) :
    IsHull (extents primitives) (Diagram.of primitives).bounds := by
  obtain ⟨p, hp⟩ := List.exists_mem_of_ne_nil primitives hne
  obtain ⟨extent, hextent⟩ := (h p hp).exists_extent
  exact isHull_diagram hp hextent

/-- What is attained by a rectangle around a primitive is attained by a primitive. -/
theorem exists_extent_of_mem_map {side : ℚ} {f : Bounds ℚ → ℚ}
    (h : side ∈ (extents primitives).map f) :
    ∃ p ∈ primitives, ∃ extent, p.extent? = some extent ∧ f extent = side := by
  obtain ⟨extent, hmem, rfl⟩ := List.mem_map.1 h
  obtain ⟨p, hp, hextent⟩ := List.mem_filterMap.1 hmem
  exact ⟨p, hp, extent, hextent, rfl⟩

end

/-! ### Frames -/

section

variable {style : Style ℚ} {content : Node} {kind : GroupKind} {cursor finish : Point ℚ}
  {drawn : List (Primitive ℚ)}

/-- A group draws its caption, its content and a frame, which covers both if the padding is
not negative. -/
theorem Draws.covers_of_group (h : Draws style (.group content kind) cursor drawn finish)
    (hpadding : 0 ≤ style.metrics.groupPadding) :
    ∃ inside last frame, Draws style content (contentStart style cursor) inside last ∧
      drawn = captionOf style kind cursor ++ inside ++ [.frame frame] ∧
      ∀ p ∈ inside, ∀ extent, p.extent? = some extent → frame.extent.Covers extent := by
  cases h with
  | terminal look => cases look
  | @group _ _ last inside _ hcontent =>
      obtain ⟨hull, hhull, hexpand⟩ := frameBounds_eq_expand style
        (captionOf style kind cursor ++ inside) cursor last
      refine ⟨inside, last, _, hcontent, rfl, fun p hp extent hextent => ?_⟩
      have hmem := mem_extents (List.mem_append_right (captionOf style kind cursor) hp) hextent
      rw [frameWith_extent, hexpand]
      exact (hhull.covers (List.mem_cons_of_mem _ hmem)).expand_left hpadding

end

/-! ### Diagrams -/

/-- How the bounds of the diagram of a tree lie around what is drawn, and the frames in it
around what is drawn inside. -/
structure CoversDrawing (style : Style ℚ) (node : Node) (whole : Diagram ℚ) : Prop where
  /-- A path is straight with two points, or curved with a start and three points for each
  of its segments, of which there is at least one. -/
  paths : ∀ path, .path path ∈ whole.primitives →
    path.curved = false ∧ path.points.length = 2 ∨
    path.curved = true ∧ ∃ k, 1 ≤ k ∧ path.points.length = 3 * k + 1 ∧
      (segments path.points).length = k
  /-- The bounds contain every point of every curve. -/
  curves : whole.bounds.ContainsCurves whole.primitives
  /-- The frame of a group contains every point of every curve that is drawn by a node inside
  the group, unless the padding is negative. -/
  frames : 0 ≤ style.metrics.groupPadding → ∀ before content kind cursor,
    Reaches style node (origin style) before (.group content kind) cursor →
    ∃ frame after,
      whole.primitives = before ++ (captionOf style kind cursor ++
        (sketch style content (contentStart style cursor)).drawn ++ [.frame frame]) ++ after ∧
      ∀ more inner entry, Reaches style content (contentStart style cursor) more inner entry →
        frame.extent.ContainsCurves (sketch style inner entry).drawn
  /-- Every group of the tree is drawn from somewhere, and so is every node inside it. -/
  reached : ∀ content kind, Below node (.group content kind) → ∃ before cursor,
    Reaches style node (origin style) before (.group content kind) cursor ∧
    ∀ inner, Below content inner → ∃ more entry,
      Reaches style content (contentStart style cursor) more inner entry
  /-- Every side of the bounds is attained by something that is drawn, if anything is. -/
  sides : whole.primitives ≠ [] → ∀ side ∈ [Bounds.minX, minY, maxX, maxY],
    ∃ p ∈ whole.primitives, ∃ extent, p.extent? = some extent ∧ side extent = side whole.bounds
  /-- Of the patterns, only the empty one draws nothing. -/
  blank : ∀ pattern, parse pattern = .ok node → (whole.primitives = [] ↔ pattern = "")
  /-- A diagram of nothing has no size and lies at the origin. -/
  zero : whole.primitives = [] → whole.bounds = .zero

/-- **The bounds of a diagram cover what is really drawn**, and no more. -/
theorem bounds_cover_drawing (style : Style ℚ) {node : Node} (proper : node.Proper) :
    ∃ whole, diagram style node = .ok whole ∧ CoversDrawing style node whole := by
  obtain ⟨drawn, finish, hdraws⟩ := exists_draws style proper (origin style)
  refine ⟨.of drawn, hdraws.diagram_eq, ?paths, ?curves, ?frames, ?reached, ?sides, ?blank, ?zero⟩
  case paths =>
    intro path hpath
    have htraced : path.IsTraced := hdraws.isTraced _ hpath
    exact htraced.straight_or_curved
  case curves =>
    refine containsCurves_of_covers hdraws.isTraced fun p hp extent hextent => ?_
    exact (isHull_diagram hp hextent).covers (mem_extents hp hextent)
  -- a group covers with its frame all that is drawn inside it, so also what its parts draw
  case frames =>
    intro hpadding before content kind cursor hreaches
    obtain ⟨outer, last, after, hgroup, rfl⟩ := hreaches.draws hdraws
    obtain ⟨inside, stop, frame, hcontent, rfl, hcovers⟩ := hgroup.covers_of_group hpadding
    have hcurves := containsCurves_of_covers hcontent.isTraced hcovers
    refine ⟨frame, after, by rw [hcontent.sketch_eq]; rfl, ?_⟩
    intro more inner entry hinner path hpath
    obtain ⟨part, partLast, rest, hpart, rfl⟩ := hinner.draws hcontent
    rw [hpart.sketch_eq] at hpath
    exact hcurves path (List.mem_append_left _ (List.mem_append_right _ hpath))
  case reached =>
    intro content kind hbelow
    obtain ⟨before, cursor, hreaches⟩ := exists_reaches style proper (origin style) hbelow
    have hcontent : content.Proper := Node.proper_group_iff.1 (hbelow.proper proper)
    exact ⟨before, cursor, hreaches, fun _ => exists_reaches style hcontent _⟩
  -- the bounds are the hull, and a side of the hull is a side of some extent
  case sides =>
    intro hne
    have hhull := isHull_bounds hne hdraws.isTraced
    simp only [List.forall_mem_cons, List.not_mem_nil, false_implies, implies_true, and_true]
    exact ⟨exists_extent_of_mem_map hhull.minX.1, exists_extent_of_mem_map hhull.minY.1,
      exists_extent_of_mem_map hhull.maxX.1, exists_extent_of_mem_map hhull.maxY.1⟩
  case blank =>
    intro pattern hparse
    exact hdraws.eq_nil_iff.trans (isBlank_iff_of_parse hparse)
  case zero =>
    rintro (rfl : drawn = [])
    rfl

/-- The hypothesis of `bounds_cover_drawing` is satisfiable: a loop around a group of two
alternatives, of which one is optional. -/
theorem bounds_cover_drawing_choice :
    (Node.zeroOrMore (.group (.choice [.literal "a", .optional .anyChar]) .lookahead)).Proper ∧
    ∃ whole, diagram {} (.zeroOrMore
        (.group (.choice [.literal "a", .optional .anyChar]) .lookahead)) = .ok whole ∧
      CoversDrawing {} (.zeroOrMore
        (.group (.choice [.literal "a", .optional .anyChar]) .lookahead)) whole :=
  ⟨by decide, bounds_cover_drawing {} (by decide)⟩

end Layout
end Railroad
