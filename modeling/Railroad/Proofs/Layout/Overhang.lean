/-
# Loops stick out to the left no further than one loop does

A loop sticks out to the left of the place where it ends.  In a group the content
starts at the padding, and the frame keeps the padding from what sticks out of the
content, so the frame sticks out of the group no further than the loop does out of the
content.  With metrics in balance nothing else reaches further to the left, and so the
overhang is the same at any depth (`Draws.startsFrom`):

| piece | why it does not reach further |
| --- | --- |
| caption of a class | it is no wider than the class, and in the middle of it |
| connector, bypass | a control point is no further from its end than the branch is |
| arrowhead | it is no wider than the loop sticks out on both sides |
| frame | the padding is added on the way in and taken off on the way out |

Together with the right ends of the frames (`OnTrack.right`) this keeps the frames of
the items of a sequence apart (`overhang_bounded`).
-/

import Railroad.Proofs.Layout.Track

namespace Railroad
namespace Layout

open Pattern Drawing Bounds

/-- Metrics in which what is drawn fits its place: captions are no larger than labels,
control points lie within the room of a branch, arrowheads within the overhang of a
loop on both sides, and the overhang within the gap between elements. -/
structure Metrics.Balanced (m : Metrics ℚ) : Prop extends m.Nonneg where
  /-- Captions are no larger than labels. -/
  captionSize_le : m.captionSize ≤ m.fontSize
  /-- Control points lie within the room of a branch. -/
  curvePull_le : m.curvePull ≤ m.branchOffset
  /-- An arrowhead lies within the overhang of a loop on both sides. -/
  arrowSize_le : m.arrowSize ≤ 2 * m.loopOverhang
  /-- A loop sticks out by less than the gap between elements. -/
  loopOverhang_lt : m.loopOverhang < m.spacing

/-- The metrics that are used if nothing else is asked for are in balance. -/
theorem balanced_default : ({} : Metrics ℚ).Balanced where
  toNonneg := nonneg_default
  captionSize_le := Nat.cast_le.2 (by decide)
  curvePull_le := Nat.cast_le.2 (by decide)
  arrowSize_le := by norm_num
  loopOverhang_lt := Nat.cast_lt.2 (by decide)

/-! ### Where primitives start -/

/-- Whether a primitive has an extent, and none of it is to the left of `left`. -/
def StartsFrom (left : ℚ) (p : Primitive ℚ) : Prop := ∃ b, p.extent? = some b ∧ left ≤ b.minX

variable {left left' : ℚ} {p : Primitive ℚ}

/-- What does not start left of a position does not start left of any further to the left. -/
theorem StartsFrom.mono (hle : left' ≤ left) (h : StartsFrom left p) : StartsFrom left' p := by
  obtain ⟨b, hb, hleft⟩ := h
  exact ⟨b, hb, hle.trans hleft⟩

/-- A path starts where its first point from the left is. -/
theorem startsFrom_path {c : Connector ℚ} {q : Point ℚ} {points : List (Point ℚ)}
    (hc : c.points = q :: points) (h : ∀ r ∈ q :: points, left ≤ r.x) :
    StartsFrom left (.path c) := by
  have hbounds : c.extent? = some ((points.map ofPoint).foldl Bounds.union (ofPoint q)) := by
    rw [Connector.extent?, hc]
    rfl
  refine ⟨_, hbounds, ?_⟩
  obtain ⟨b, hb, hleast⟩ := List.mem_map.1 (isHull_unionAll hbounds).minX.1
  rw [hc] at hb
  obtain ⟨r, hr, rfl⟩ := List.mem_map.1 hb
  rw [← hleast]
  exact h r hr

variable {style : Style ℚ} {cursor finish : Point ℚ} {drawn : List (Primitive ℚ)}

/-- A box starts at the cursor. -/
theorem startsFrom_boxAt (cursor : Point ℚ) (width : ℚ) (label fill stroke : String) :
    StartsFrom cursor.x (boxAt style cursor width label fill stroke) := ⟨_, rfl, le_rfl⟩

/-- Connections start at the cursor or behind it, if their curves do not reach back too far. -/
theorem startsFrom_connectors {exit : ℚ} {branch : Branch ℚ} (hcursor : left ≤ cursor.x)
    (hentry : left ≤ branch.entry.x) (hpull : 0 ≤ style.metrics.curvePull)
    (hend : left ≤ branch.endX) (hexit : left ≤ exit - style.metrics.curvePull) :
    ∀ p ∈ connectors style cursor exit branch, StartsFrom left p := by
  have hpulled : left ≤ cursor.x + style.metrics.curvePull := by linarith
  have hout : left ≤ exit := by linarith
  rw [connectors]
  split
  all_goals
    refine List.forall_mem_cons.2 ⟨startsFrom_path rfl ?_, List.forall_mem_cons.2
      ⟨startsFrom_path rfl ?_, List.forall_mem_nil _⟩⟩ <;>
    simp only [List.forall_mem_cons, List.not_mem_nil, false_implies, implies_true, and_true,
      hcursor, hentry, hend, hexit, hpulled, hout]

/-- A bypass does not start left of its entry, if its exit is far enough away for the curve to be
pulled back. -/
theorem startsFrom_bypass {startX endX y : ℚ} (hstart : left ≤ startX)
    (hpull : 0 ≤ style.metrics.curvePull) (hoffset : 0 ≤ style.metrics.branchOffset)
    (hend : left ≤ endX - style.metrics.curvePull) :
    StartsFrom left (bypass style startX endX y) := by
  have hpulled : left ≤ startX + style.metrics.curvePull := by linarith
  have hmoved : left ≤ startX + style.metrics.branchOffset := by linarith
  have hout : left ≤ endX := by linarith
  refine startsFrom_path rfl ?_
  simp only [List.forall_mem_cons, List.not_mem_nil, false_implies, implies_true, and_true,
    hstart, hend, hpulled, hmoved, hout]

/-- The way back reaches in front of the item, but by no more than the overhang. -/
theorem startsFrom_loop (h : style.metrics.Balanced) {startX endX y : ℚ}
    (hstart : left ≤ startX - style.metrics.loopOverhang) (hle : startX ≤ endX) :
    ∀ p ∈ loop style startX endX y, StartsFrom left p := by
  have hoverhang := h.loopOverhang
  have harrow := h.arrowSize_le
  have hin : left ≤ startX := by linarith
  have hout : left ≤ endX := by linarith
  have hbeyond : left ≤ endX + style.metrics.loopOverhang := by linarith
  refine List.forall_mem_cons.2 ⟨startsFrom_path rfl ?_, List.forall_mem_cons.2
    ⟨⟨_, rfl, ?_⟩, List.forall_mem_nil _⟩⟩
  · simp only [List.forall_mem_cons, List.not_mem_nil, false_implies, implies_true, and_true,
      hstart, hin, hout, hbeyond]
  · simp only [Arrow.extent]
    linarith

/-- The caption of a class does not reach to the left of the class. -/
theorem startsFrom_classCaption (h : style.metrics.Balanced) (items : List ClassItem)
    (negated : Bool) (cursor : Point ℚ) :
    StartsFrom cursor.x (.caption (classCaptionAt style items negated cursor)) := by
  refine ⟨_, rfl, ?_⟩
  have hwidth := le_max_left (boxWidth style.metrics (classCaption negated))
    (rowWidth style (items.map itemLabel))
  rw [← classWidth_eq_max, boxWidth] at hwidth
  have hcaption := textWidth_mono (classCaption negated) h.captionSize_le
  have hpadding := h.boxPadding
  simp only [Caption.extent, Caption.left, classCaptionAt]
  push_cast at hwidth ⊢
  linarith

/-- A class lies to the right of its start. -/
theorem startsFrom_class (h : style.metrics.Balanced) (items : List ClassItem) (negated : Bool)
    (cursor : Point ℚ) :
    ∀ p ∈ Primitive.caption (classCaptionAt style items negated cursor) ::
      itemBoxes style cursor (items.map itemLabel), StartsFrom cursor.x p := by
  refine List.forall_mem_cons.2 ⟨startsFrom_classCaption h items negated cursor, fun p hp => ?_⟩
  obtain ⟨x, label, rfl⟩ := mem_itemBoxes hp
  exact (startsFrom_boxAt _ _ _ _ _).mono (itemBoxes_within h.toNonneg (mem_boxes.2 hp)).1

/-- The connectors of a choice lie to the right of its start, if its branches do not end to the
left of where they start. -/
theorem startsFrom_joins (h : style.metrics.Balanced) {count : Nat} {ends : Nat → Point ℚ}
    (hends : ∀ i < count, (branchEntry style cursor count i).x ≤ (ends i).x) :
    ∀ p ∈ (branchesTo style cursor count ends).flatMap
      (connectors style cursor (exitX cursor (branchesTo style cursor count ends))),
      StartsFrom cursor.x p := by
  have hoffset := h.branchOffset
  have hpulled := h.curvePull_le
  intro p hp
  obtain ⟨branch, hbranch, hp⟩ := List.mem_flatMap.1 hp
  -- the exit is behind every branch, and every branch ends behind its entry
  have hexit := endX_le_exitX cursor hbranch
  obtain ⟨i, hi, rfl⟩ := List.mem_map.1 hbranch
  have hadvance := hends i (List.mem_range.1 hi)
  simp only [branchEntry] at hadvance hexit
  refine startsFrom_connectors le_rfl ?_ h.curvePull ?_ ?_ p hp
  · simp only [branchEntry]
    linarith
  · linarith
  · linarith

/-- The caption of a group starts at the padding. -/
theorem startsFrom_captionOf (kind : GroupKind) (cursor : Point ℚ) :
    ∀ p ∈ captionOf style kind cursor, StartsFrom (cursor.x + style.metrics.groupPadding) p := by
  intro p hp
  rw [captionOf] at hp
  split at hp
  · cases hp
  · rw [List.mem_singleton.1 hp]
    exact ⟨_, rfl, le_rfl⟩

/-- What starts from a position does not extend to the left of it. -/
theorem le_minX_of_mem_extents (h : ∀ p ∈ drawn, StartsFrom left p) {b : Bounds ℚ}
    (hb : b ∈ extents drawn) : left ≤ b.minX := by
  obtain ⟨p, hp, hextent⟩ := List.mem_filterMap.1 hb
  obtain ⟨b', hb', hle⟩ := h p hp
  obtain rfl := Option.some.inj (hextent.symm.trans hb')
  exact hle

/-- The frame around what starts from somewhere starts at the padding to the left of it. -/
theorem startsFrom_frame (hcursor : left ≤ cursor.x + style.metrics.groupPadding)
    (h : ∀ p ∈ drawn, StartsFrom left p) :
    StartsFrom (left - style.metrics.groupPadding)
      (.frame (frameWith style (frameBounds style drawn cursor finish))) := by
  obtain ⟨hull, hhull, heq⟩ := frameBounds_eq_expand style drawn cursor finish
  refine ⟨_, congrArg some (frameWith_extent style _), ?_⟩
  rw [heq]
  refine sub_le_sub_right ?_ _
  obtain ⟨b, hb, hleast⟩ := List.mem_map.1 hhull.minX.1
  rw [← hleast]
  rcases List.mem_cons.1 hb with rfl | hb
  · exact hcursor
  · exact le_minX_of_mem_extents h hb

/-- The bounds of a diagram that is not empty start where its primitives do. -/
theorem le_minX_of_ne_nil (hne : drawn ≠ []) (h : ∀ p ∈ drawn, StartsFrom left p) :
    left ≤ (Diagram.of drawn).bounds.minX := by
  obtain ⟨p, hp⟩ := List.exists_mem_of_ne_nil drawn hne
  obtain ⟨extent, hextent, -⟩ := h p hp
  obtain ⟨b, hb, hleast⟩ := List.mem_map.1 (isHull_diagram hp hextent).minX.1
  rw [← hleast]
  exact le_minX_of_mem_extents h hb

/-! ### The invariant -/

/-- **Nothing sticks out further than a loop.** -/
theorem Draws.startsFrom (h : style.metrics.Balanced) {node : Node}
    (hdraws : Draws style node cursor drawn finish) :
    ∀ p ∈ drawn, StartsFrom (cursor.x - style.metrics.loopOverhang) p := by
  have hoverhang := h.loopOverhang
  have hoffset := h.branchOffset
  have hpull := h.curvePull
  have hpulled := h.curvePull_le
  have hout (x : ℚ) : x - style.metrics.loopOverhang ≤ x := sub_le_self x hoverhang
  induction hdraws with
  | terminal look cursor =>
      exact List.forall_mem_singleton.2 ((startsFrom_boxAt cursor _ _ _ _).mono (hout _))
  | charClass items negated cursor =>
      exact fun p hp => (startsFrom_class h items negated cursor p hp).mono (hout _)
  | nil cursor => exact List.forall_mem_nil _
  | cons hitem _ ihItem ihItems =>
      have hadvance := (hitem.onTrack h.toNonneg).advance
      refine List.forall_mem_append.2 ⟨ihItem, fun p hp => (ihItems p hp).mono ?_⟩
      exact sub_le_sub_right hadvance _
  | @choice alternatives cursor drawn finish hparts ih =>
      refine List.forall_mem_append.2 ⟨fun p hp => ?_, fun p hp => ?_⟩
      · obtain ⟨i, hi, hp⟩ := List.mem_flatMap.1 hp
        have hnode := List.getElem?_eq_getElem (List.mem_range.1 hi)
        refine (ih i _ hnode p hp).mono ?_
        simp only [branchEntry]
        linarith
      · refine (startsFrom_joins h (fun i hi => ?_) p hp).mono (hout _)
        exact ((hparts i _ (List.getElem?_eq_getElem hi)).onTrack h.toNonneg).advance
  | @optional item cursor finish drawn hitem ih =>
      have hadvance := (hitem.onTrack h.toNonneg).advance
      have hcursor := hout cursor.x
      simp only [Point.withX] at hadvance
      refine List.forall_mem_append.2 ⟨fun p hp => (ih p hp).mono ?_, List.forall_mem_singleton.2
        (startsFrom_bypass hcursor hpull hoffset ?_)⟩
      · simp only [Point.withX]
        linarith
      · linarith
  | @zeroOrMore item cursor finish drawn hitem ih =>
      have hadvance := (hitem.onTrack h.toNonneg).advance
      have hcursor := hout cursor.x
      simp only [Point.withX] at hadvance
      refine List.forall_mem_append.2 ⟨fun p hp => (ih p hp).mono ?_, List.forall_mem_cons.2
        ⟨startsFrom_bypass hcursor hpull hoffset ?_, startsFrom_loop h ?_ hadvance⟩⟩
      · simp only [Point.withX]
        linarith
      · linarith
      · linarith
  | oneOrMore hitem ih =>
      have hadvance := (hitem.onTrack h.toNonneg).advance
      exact List.forall_mem_append.2 ⟨ih, startsFrom_loop h le_rfl hadvance⟩
  | counted quantifier _ ih => exact List.forall_mem_cons.2 ⟨⟨_, rfl, hout _⟩, ih⟩
  | @group content cursor finish drawn kind _ ih =>
      have hpadding := h.groupPadding
      have hinside : ∀ p ∈ captionOf style kind cursor ++ drawn,
          StartsFrom (cursor.x + style.metrics.groupPadding - style.metrics.loopOverhang) p :=
        List.forall_mem_append.2
          ⟨fun p hp => (startsFrom_captionOf kind cursor p hp).mono (hout _), ih⟩
      -- the padding on the way in makes up for the padding of the frame
      refine List.forall_mem_append.2 ⟨fun p hp => (hinside p hp).mono ?_,
        List.forall_mem_singleton.2 ((startsFrom_frame (hout _) hinside).mono ?_)⟩
      · linarith
      · linarith
  | empty cursor => exact List.forall_mem_nil _

/-- **The overhang does not add up, and frames in a row do not touch.**  Every primitive
of a proper tree has an extent that starts no more than the overhang to the left of the
cursor, and the frames end in front of the gap.  So the bounds of a diagram start no
more than the overhang to the left of the origin, unless nothing is drawn; and in any
sequence in the tree, the frames of an item end in front of those of any later item, by
the gap less the overhang. -/
theorem overhang_bounded (style : Style ℚ) (h : style.metrics.Balanced) {node : Node}
    (proper : node.Proper) (cursor : Point ℚ) :
    (∃ drawn finish, sketch style node cursor = ⟨drawn, .ok finish⟩ ∧
      (∀ p ∈ drawn, ∃ extent, p.extent? = some extent ∧
        cursor.x - style.metrics.loopOverhang ≤ extent.minX) ∧
      ∀ f ∈ frames drawn, f.x + f.width ≤ finish.x - style.metrics.spacing) ∧
    (∃ whole, diagram style node = .ok whole ∧ (whole.primitives ≠ [] →
      style.metrics.originX - style.metrics.loopOverhang ≤ whole.bounds.minX)) ∧
    0 < style.metrics.spacing - style.metrics.loopOverhang ∧
    InSequences style node cursor fun earlier later => ∀ f ∈ frames earlier, ∀ f' ∈ frames later,
      f.x + f.width + (style.metrics.spacing - style.metrics.loopOverhang) ≤ f'.x := by
  obtain ⟨drawn, finish, hdraws⟩ := exists_draws style proper cursor
  obtain ⟨whole, last, hwhole⟩ := exists_draws style proper (origin style)
  refine ⟨⟨drawn, finish, hdraws.sketch_eq, hdraws.startsFrom h, fun f hf => ?_⟩,
    ⟨.of whole, hwhole.diagram_eq, fun hne => ?_⟩, sub_pos.2 h.loopOverhang_lt, ?_⟩
  · exact (hdraws.onTrack h.toNonneg).right _ (mem_rights_of_mem_frames hf)
  · exact le_minX_of_ne_nil hne (hwhole.startsFrom h)
  -- the later item starts behind the earlier one, but may stick out by the overhang
  · refine inSequences h.toNonneg proper cursor fun hitem hnext hle f hf f' hf' => ?_
    have hright := (hitem.onTrack h.toNonneg).right _ (mem_rights_of_mem_frames hf)
    obtain ⟨extent, hextent, hleft⟩ := hnext.startsFrom h _ (mem_frames.1 hf')
    obtain rfl := Option.some.inj hextent
    simp only [Frame.extent] at hleft
    linarith

/-- The hypotheses of `overhang_bounded` are satisfiable: loops around a group that holds a
loop. -/
theorem overhang_bounded_nested :
    ({} : Metrics ℚ).Balanced ∧
    (Node.zeroOrMore (.group (.oneOrMore (.literal "a")) .capturing)).Proper ∧
    ∃ whole, diagram {} (.zeroOrMore (.group (.oneOrMore (.literal "a")) .capturing)) = .ok whole ∧
      (whole.primitives ≠ [] → (20 - 10 : ℚ) ≤ whole.bounds.minX) :=
  ⟨balanced_default, by decide, (overhang_bounded {} balanced_default (by decide) ⟨20, 100⟩).2.1⟩

end Layout
end Railroad
