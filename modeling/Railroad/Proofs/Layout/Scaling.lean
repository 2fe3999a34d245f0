/-
# Drawings at other sizes and in other places

When all sizes and distances of a style are multiplied by one factor and the cursor goes
where a similarity of that factor takes it, what is drawn is the image of what was drawn
before, primitive for primitive (`Draws.similar`).  No length enters a drawing but those of
the style, and places enter it only by their distances.

`SimilarDrawings` says this of a node together with what follows for the bounds, and that a
node is drawn alike wherever it starts; `similar_drawings` proves it of every proper tree.
-/

import Railroad.Proofs.Drawing.Similarity
import Railroad.Proofs.Layout.Draws

namespace Railroad
namespace Layout

open Pattern Drawing
open Scalar (greatest)

/-- The metrics with every size and distance multiplied by a factor. -/
def Metrics.scaled (factor : ℚ) (m : Metrics ℚ) : Metrics ℚ where
  fontSize := factor * m.fontSize
  captionSize := factor * m.captionSize
  boxPadding := factor * m.boxPadding
  boxHeight := factor * m.boxHeight
  boxRadius := factor * m.boxRadius
  lineWidth := factor * m.lineWidth
  spacing := factor * m.spacing
  classItemGap := factor * m.classItemGap
  choiceSpacing := factor * m.choiceSpacing
  branchOffset := factor * m.branchOffset
  curvePull := factor * m.curvePull
  bypassHeight := factor * m.bypassHeight
  loopHeight := factor * m.loopHeight
  loopOverhang := factor * m.loopOverhang
  arrowSize := factor * m.arrowSize
  classCaptionOffset := factor * m.classCaptionOffset
  countCaptionOffset := factor * m.countCaptionOffset
  groupCaptionOffset := factor * m.groupCaptionOffset
  groupPadding := factor * m.groupPadding
  originX := factor * m.originX
  originY := factor * m.originY

/-- The style with the same colours and every size and distance multiplied by a factor. -/
def Style.scaled (factor : ℚ) (style : Style ℚ) : Style ℚ :=
  ⟨style.metrics.scaled factor, style.palette⟩

/-- A style scaled by one is the style. -/
theorem Style.scaled_one (style : Style ℚ) : style.scaled 1 = style := by
  simp only [Style.scaled, Metrics.scaled, one_mul]

variable (f : Similarity) (style : Style ℚ)

/-! ### Boxes -/

/-- Boxes are scaled with the style. -/
theorem boxWidth_scaled (label : String) :
    boxWidth (style.scaled f.factor).metrics label = f.factor * boxWidth style.metrics label := by
  simp only [boxWidth, Style.scaled, Metrics.scaled, f.textWidth_factor]
  ring

/-- The image of a box is the box at the image of its cursor. -/
theorem primitive_boxAt (cursor : Point ℚ) (width : ℚ) (label fill stroke : String) :
    f.primitive (boxAt style cursor width label fill stroke) =
      boxAt (style.scaled f.factor) (f.point cursor) (f.factor * width) label fill stroke := by
  simp only [boxAt, Similarity.primitive, f.y_sub, ← mul_div_assoc]
  rfl

/-- The members of a class are scaled with the style. -/
theorem itemWidth_scaled (label : String) :
    itemWidth (style.scaled f.factor) label = f.factor * itemWidth style label := by
  simp only [itemWidth, Style.scaled, Metrics.scaled, f.textWidth_factor]
  ring

/-- The images of the boxes of a class are those at the image of the cursor, by induction along
the row. -/
theorem map_primitive_itemBoxes (cursor : Point ℚ) (labels : List String) :
    (itemBoxes style cursor labels).map f.primitive =
      itemBoxes (style.scaled f.factor) (f.point cursor) labels := by
  induction labels generalizing cursor with
  | nil => rfl
  | cons label labels ih =>
      rw [itemBoxes, List.map_cons, ih, primitive_boxAt, itemBoxes, itemWidth_scaled]
      simp only [Point.withX, Similarity.point, f.x_add, mul_add]
      rfl

/-- A class is scaled with the style, whether its caption or its members are the wider. -/
theorem classWidth_scaled (caption : String) (labels : List String) :
    classWidth (style.scaled f.factor) caption labels =
      f.factor * classWidth style caption labels := by
  have hwidths : labels.map (itemWidth (style.scaled f.factor)) =
      (labels.map (itemWidth style)).map (f.factor * ·) := by
    rw [List.map_map]
    exact List.map_congr_left fun label _ => itemWidth_scaled f style label
  have hgap : (style.scaled f.factor).metrics.classItemGap =
      f.factor * style.metrics.classItemGap := rfl
  have hsum (widths : List ℚ) : (widths.map (f.factor * ·)).sum = f.factor * widths.sum :=
    (map_list_sum (AddMonoidHom.mulLeft f.factor) widths).symm
  rw [classWidth, classWidth, ← Scalar.greatest_map f.factor_mono]
  simp only [boxWidth_scaled, hwidths, hgap, Scalar.sum_eq_sum, hsum, mul_add, mul_assoc]

/-- The image of the caption of a class is the one at the image of the cursor. -/
theorem primitive_classCaptionAt (items : List ClassItem) (negated : Bool) (cursor : Point ℚ) :
    f.primitive (.caption (classCaptionAt style items negated cursor)) =
      .caption (classCaptionAt (style.scaled f.factor) items negated (f.point cursor)) := by
  simp only [classCaptionAt, Similarity.primitive, classWidth_scaled, f.x_add, f.y_sub,
    ← mul_div_assoc]
  rfl

/-! ### Paths -/

/-- The image of a bypass is the bypass between the images. -/
theorem primitive_bypass (startX endX y : ℚ) :
    f.primitive (bypass style startX endX y) =
      bypass (style.scaled f.factor) (f.x startX) (f.x endX) (f.y y) := by
  simp only [bypass, curve, Similarity.primitive, List.map_cons, List.map_nil, Similarity.point,
    f.x_add, f.x_sub, f.y_sub]
  rfl

/-- The image of the way back is the way back between the images. -/
theorem map_primitive_loop (startX endX y : ℚ) :
    (loop style startX endX y).map f.primitive =
      loop (style.scaled f.factor) (f.x startX) (f.x endX) (f.y y) := by
  simp only [loop, curve, Similarity.primitive, List.map_cons, List.map_nil, Similarity.point,
    f.x_add, f.x_sub, f.y_add]
  rfl

/-! ### Choices -/

/-- The image of where an alternative starts is where it starts from the image of the cursor. -/
theorem point_branchEntry (cursor : Point ℚ) (count index : Nat) :
    f.point (branchEntry style cursor count index) =
      branchEntry (style.scaled f.factor) (f.point cursor) count index := by
  simp only [branchEntry, Similarity.point, f.x_add, f.y_add]
  congr 2
  exact mul_left_comm ..

/-- Where a branch goes. -/
def imageBranch (branch : Branch ℚ) : Branch ℚ := ⟨f.point branch.entry, f.x branch.endX⟩

/-- The images of the branches are those between the images of their ends. -/
theorem map_imageBranch_branchesTo (cursor : Point ℚ) (count : Nat) (finish : Nat → Point ℚ) :
    (branchesTo style cursor count finish).map (imageBranch f) =
      branchesTo (style.scaled f.factor) (f.point cursor) count fun i => f.point (finish i) := by
  rw [branchesTo, List.map_map]
  refine List.map_congr_left fun i _ => ?_
  simp only [Function.comp_apply, imageBranch, point_branchEntry]
  rfl

/-- The widest branch stays the widest: its width is multiplied as all widths are. -/
theorem x_exitX (cursor : Point ℚ) (branches : List (Branch ℚ)) :
    f.x (exitX cursor branches) = exitX (f.point cursor) (branches.map (imageBranch f)) := by
  -- the widest branch, by induction along the branches: scaling keeps which of two is wider
  have hfold (width : ℚ) :
      f.factor * branches.foldl (fun width b => greatest width (b.endX - cursor.x)) width =
        (branches.map (imageBranch f)).foldl
          (fun width b => greatest width (b.endX - (f.point cursor).x)) (f.factor * width) := by
    induction branches generalizing width with
    | nil => rfl
    | cons branch branches ih =>
        have hstep : greatest (f.factor * width) (f.x branch.endX - f.x cursor.x) =
            f.factor * greatest width (branch.endX - cursor.x) := by
          rw [f.x_sub_x, Scalar.greatest_map f.factor_mono]
        rw [List.foldl_cons, ih, List.map_cons, List.foldl_cons, ← hstep]
        rfl
  rw [exitX, f.x_add, hfold, exitX, Nat.cast_zero, mul_zero]
  rfl

/-- A branch on the track line stays on it, and no other comes to lie on it. -/
theorem map_primitive_connectors (cursor : Point ℚ) (exit : ℚ) (branch : Branch ℚ) :
    (connectors style cursor exit branch).map f.primitive =
      connectors (style.scaled f.factor) (f.point cursor) (f.x exit) (imageBranch f branch) := by
  have hline : ((imageBranch f branch).entry.y == (f.point cursor).y) =
      (branch.entry.y == cursor.y) := by
    rw [Bool.eq_iff_iff, beq_iff_eq, beq_iff_eq]
    exact f.y_injective.eq_iff
  rw [connectors, connectors, hline]
  split
  · rfl
  · simp only [curve, Similarity.primitive, List.map_cons, List.map_nil, Similarity.point,
      f.x_add, f.x_sub]
    rfl

/-! ### Captions and frames -/

/-- The image of the caption of a count is the one at the image of the cursor. -/
theorem primitive_countCaption (quantifier : String) (cursor : Point ℚ) :
    f.primitive (countCaption style quantifier cursor) =
      countCaption (style.scaled f.factor) quantifier (f.point cursor) := by
  simp only [countCaption, Similarity.primitive, f.y_sub]
  rfl

/-- The image of the caption of a group is the one at the image of the cursor. -/
theorem map_primitive_captionOf (kind : GroupKind) (cursor : Point ℚ) :
    (captionOf style kind cursor).map f.primitive =
      captionOf (style.scaled f.factor) kind (f.point cursor) := by
  rw [captionOf, captionOf]
  split
  · rfl
  · simp only [List.map_cons, List.map_nil, Similarity.primitive, f.x_add, f.y_sub]
    rfl

/-- The image of the track inside a group is the track between the images. -/
theorem bounds_trackBand (start finish : Point ℚ) (y : ℚ) :
    f.bounds (trackBand style start finish y) =
      trackBand (style.scaled f.factor) (f.point start) (f.point finish) (f.y y) := by
  simp only [trackBand, Similarity.bounds, f.y_sub, f.y_add, ← mul_div_assoc]
  rfl

/-- The image of where the content of a group starts is where it starts from the image. -/
theorem point_contentStart (cursor : Point ℚ) :
    f.point (contentStart style cursor) =
      contentStart (style.scaled f.factor) (f.point cursor) := by
  simp only [contentStart, Point.withX, Similarity.point, f.x_add]
  rfl

/-- The image of the bounds of a frame is what lies around the images of what it encloses. -/
theorem bounds_frameBounds (drawn : List (Primitive ℚ)) (cursor finish : Point ℚ) :
    f.bounds (frameBounds style drawn cursor finish) =
      frameBounds (style.scaled f.factor) (drawn.map f.primitive) (f.point cursor)
        (f.point finish) := by
  have hband := bounds_trackBand f style (contentStart style cursor) finish cursor.y
  rw [point_contentStart] at hband
  rw [frameBounds, frameBounds, f.of?_map_primitive]
  cases Bounds.of? drawn with
  | none =>
      rw [← f.expand_bounds, hband]
      rfl
  | some content =>
      rw [← f.expand_bounds, ← f.union_bounds, hband]
      rfl

/-- The image of a frame is the frame with the image of its bounds. -/
theorem primitive_frameWith (bounds : Bounds ℚ) :
    f.primitive (.frame (frameWith style bounds)) =
      .frame (frameWith (style.scaled f.factor) (f.bounds bounds)) := by
  simp only [frameWith, Similarity.primitive, f.width_bounds, f.height_bounds]
  rfl

/-! ### Trees -/

variable {style}

/-- A cursor at some distance behind a place goes as far behind the image of the place, the
distance multiplied. -/
theorem point_withX_add (cursor : Point ℚ) (a distance : ℚ) :
    f.point (cursor.withX (a + distance)) =
      (f.point cursor).withX (f.x a + f.factor * distance) := by
  rw [Point.withX, Similarity.point, f.x_add]
  rfl

/-- **The image of what a node draws is what it draws at the image's size**, from where the
cursor goes and to where its end goes. -/
theorem Draws.similar {node : Node} {cursor finish : Point ℚ} {drawn : List (Primitive ℚ)}
    (h : Draws style node cursor drawn finish) :
    Draws (style.scaled f.factor) node (f.point cursor) (drawn.map f.primitive)
      (f.point finish) := by
  induction h with
  | terminal look cursor =>
      rw [List.map_singleton, primitive_boxAt, point_withX_add, f.x_add, ← boxWidth_scaled]
      exact @Draws.terminal ℚ _ (style.scaled f.factor) _ _ _ _ look (f.point cursor)
  | charClass items negated cursor =>
      rw [List.map_cons, primitive_classCaptionAt, map_primitive_itemBoxes, point_withX_add,
        f.x_add, ← classWidth_scaled]
      exact .charClass items negated (f.point cursor)
  | nil cursor => exact .nil (f.point cursor)
  | cons _ _ ihItem ihItems =>
      rw [List.map_append]
      exact .cons ihItem ihItems
  -- entries, ends and exit of the branches are the images of the ones before
  | @choice alternatives cursor drawn finish _ ih =>
      have hchoice := @Draws.choice ℚ _ (style.scaled f.factor) alternatives (f.point cursor)
        (fun i => (drawn i).map f.primitive) (fun i => f.point (finish i)) fun i node hi => by
          rw [← point_branchEntry]
          exact ih i node hi
      rw [← map_imageBranch_branchesTo, ← x_exitX, List.flatMap_map] at hchoice
      simp only [← map_primitive_connectors] at hchoice
      rw [List.map_append, List.map_flatMap, List.map_flatMap, point_withX_add]
      exact hchoice
  | optional _ ih =>
      rw [point_withX_add] at ih
      rw [List.map_append, List.map_singleton, primitive_bypass]
      exact .optional ih
  | zeroOrMore _ ih =>
      rw [point_withX_add] at ih
      rw [List.map_append, List.map_cons, primitive_bypass, map_primitive_loop, f.x_add]
      exact .zeroOrMore ih
  | oneOrMore _ ih =>
      rw [List.map_append, map_primitive_loop]
      exact .oneOrMore ih
  | counted quantifier _ ih =>
      rw [List.map_cons, primitive_countCaption]
      exact .counted quantifier ih
  -- the frame lies around the images of what it encloses, so it is the image of the frame
  | @group content cursor finish drawn kind _ ih =>
      rw [point_contentStart] at ih
      have hgroup := Draws.group kind ih
      rw [← map_primitive_captionOf, ← List.map_append, ← bounds_frameBounds,
        ← primitive_frameWith] at hgroup
      rw [List.map_append, List.map_singleton, point_withX_add]
      exact hgroup
  | empty cursor => exact .empty (f.point cursor)

/-- How a node is drawn at two sizes, and in two places. -/
structure SimilarDrawings (f : Similarity) (style : Style ℚ) (node : Node)
    (cursor finish : Point ℚ) (drawn : List (Primitive ℚ)) : Prop where
  /-- What the node draws, and where it ends. -/
  source : sketch style node cursor = ⟨drawn, .ok finish⟩
  /-- With all metrics multiplied and the cursor mapped, the image of this is drawn, and the
  end is mapped. -/
  image : sketch (style.scaled f.factor) node (f.point cursor) =
    ⟨drawn.map f.primitive, .ok (f.point finish)⟩
  /-- The bounds are mapped, if there are any, … -/
  bounds : Bounds.of? (drawn.map f.primitive) = (Bounds.of? drawn).map f.bounds
  /-- … and so their size is multiplied. -/
  size : ∀ b, Bounds.of? drawn = some b →
    (f.bounds b).width = f.factor * b.width ∧ (f.bounds b).height = f.factor * b.height
  /-- Drawn from elsewhere, the same is drawn there. -/
  moved : ∀ target, sketch style node target =
    ⟨drawn.map (Similarity.moving cursor target).primitive,
      .ok ((Similarity.moving cursor target).point finish)⟩

/-- **Every proper tree is drawn alike at all sizes and in all places.** -/
theorem similar_drawings (f : Similarity) (style : Style ℚ) {node : Node} (proper : node.Proper)
    (cursor : Point ℚ) :
    ∃ finish drawn, SimilarDrawings f style node cursor finish drawn := by
  obtain ⟨drawn, finish, hdraws⟩ := exists_draws style proper cursor
  refine ⟨finish, drawn, hdraws.sketch_eq, (hdraws.similar f).sketch_eq, f.of?_map_primitive drawn,
    fun b _ => ⟨f.width_bounds b, f.height_bounds b⟩, fun target => ?_⟩
  have hmoved := hdraws.similar (.moving cursor target)
  rw [Similarity.point_moving, Similarity.moving, Style.scaled_one] at hmoved
  exact hmoved.sketch_eq

/-- The hypothesis of `similar_drawings` is satisfiable: a loop around a choice inside a
lookahead, twice as large. -/
theorem similar_drawings_double :
    (Node.group (.zeroOrMore (.choice [.literal "a", .empty])) .lookahead).Proper ∧
      ∃ finish drawn, SimilarDrawings ⟨2, 30, -5, two_pos⟩ {}
        (.group (.zeroOrMore (.choice [.literal "a", .empty])) .lookahead) ⟨20, 100⟩ finish
        drawn :=
  ⟨by decide, similar_drawings _ {} (by decide) ⟨20, 100⟩⟩

end Layout
end Railroad
