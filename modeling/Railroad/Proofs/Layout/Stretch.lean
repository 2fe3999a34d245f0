/-
# A larger font stretches a drawing to the right

The font size is part of the width of a label, and of nothing else.  So with a larger font a
box is wider, what stands behind it starts further to the right, and everything else is
drawn from where it starts and up to where it ends.  By the rules of drawing
(`Draws.stretches`):

| node | why it does not end further to the left |
| --- | --- |
| terminal, class | its width grows with that of the labels |
| sequence | an item starts no further to the left if the one in front of it ends no further |
| choice | the exit is the furthest end of a branch |
| optional, loops, counted | it ends where the item does |
| group | the frame is around a drawing that is stretched |

No `y` coordinate depends on the font size: an entry is placed by its index, and a node ends
on the line it started from.
-/

import Railroad.Proofs.Drawing.Stretch
import Railroad.Proofs.Layout.Track

namespace Railroad
namespace Layout

open Pattern Drawing

/-- A style with another font size for labels. -/
def Style.withFontSize (style : Style ℚ) (size : ℚ) : Style ℚ :=
  { style with metrics := { style.metrics with fontSize := size } }

variable (style : Style ℚ) {size size' : ℚ} {cursor cursor' finish finish' : Point ℚ}

/-! ### Widths -/

/-- Boxes are wider in a greater font. -/
theorem boxWidth_mono (hsize : size ≤ size') (label : String) :
    boxWidth (style.withFontSize size).metrics label ≤
      boxWidth (style.withFontSize size').metrics label :=
  add_le_add_left (textWidth_mono label hsize) _

/-- So are the members of a class. -/
theorem itemWidth_mono (hsize : size ≤ size') (label : String) :
    itemWidth (style.withFontSize size) label ≤ itemWidth (style.withFontSize size') label :=
  add_le_add_left (textWidth_mono label hsize) _

/-- So is a class, whether its caption or its members are the wider. -/
theorem classWidth_mono (hsize : size ≤ size') (caption : String) (labels : List String) :
    classWidth (style.withFontSize size) caption labels ≤
      classWidth (style.withFontSize size') caption labels := by
  rw [classWidth_eq_max, classWidth_eq_max]
  refine max_le_max (boxWidth_mono style hsize caption) (add_le_add_left ?_ _)
  exact List.sum_le_sum fun label _ => itemWidth_mono style hsize label

/-! ### Pieces -/

/-- A box further ahead and not less wide differs by a stretch. -/
theorem stretchesTo_boxAt (h : cursor.Ahead cursor') {width width' : ℚ} (hwidth : width ≤ width')
    (label fill stroke : String) :
    (boxAt (style.withFontSize size) cursor width label fill stroke).StretchesTo
      (boxAt (style.withFontSize size') cursor' width' label fill stroke) where
  vertical := by simp only [boxAt, Primitive.vertical, Style.withFontSize, h.y]
  extents := ⟨_, _, rfl, rfl, congrArg (· - _) h.y, congrArg (· - _ + _) h.y,
    add_le_add h.x hwidth⟩

/-- The boxes of a class differ by stretches, by induction along the row. -/
theorem stretchesTo_itemBoxes (hsize : size ≤ size') (h : cursor.Ahead cursor')
    (labels : List String) :
    List.Forall₂ Primitive.StretchesTo (itemBoxes (style.withFontSize size) cursor labels)
      (itemBoxes (style.withFontSize size') cursor' labels) := by
  induction labels generalizing cursor cursor' with
  | nil => exact .nil
  | cons label labels ih =>
      have hwidth := itemWidth_mono style hsize label
      refine .cons (stretchesTo_boxAt style h hwidth label _ _) (ih (h.move ?_))
      exact add_le_add h.x (add_le_add_left hwidth _)

/-- The caption of a class differs by a stretch. -/
theorem stretchesTo_classCaption (hsize : size ≤ size') (h : cursor.Ahead cursor')
    (items : List ClassItem) (negated : Bool) :
    (Primitive.caption (classCaptionAt (style.withFontSize size) items negated cursor)).StretchesTo
      (.caption (classCaptionAt (style.withFontSize size') items negated cursor')) where
  vertical := by simp only [classCaptionAt, Primitive.vertical, Style.withFontSize, h.y]
  extents := by
    have hwidth := classWidth_mono style hsize (classCaption negated) (items.map itemLabel)
    refine ⟨_, _, rfl, rfl, congrArg (· - _ - _) h.y, congrArg (· - _ + _) h.y, ?_⟩
    have hmiddle := div_le_div_of_nonneg_right hwidth (Nat.cast_nonneg (α := ℚ) 2)
    exact add_le_add_left (sub_le_sub_right (add_le_add h.x hmiddle) _) _

/-- A bypass to an end that is not nearer differs by a stretch. -/
theorem stretchesTo_bypass (h : cursor.Ahead cursor') (hend : finish.x ≤ finish'.x) :
    (bypass (style.withFontSize size) cursor.x finish.x cursor.y).StretchesTo
      (bypass (style.withFontSize size') cursor'.x finish'.x cursor'.y) := by
  have hin (distance : ℚ) := add_le_add_left h.x distance
  have hout := sub_le_sub_right hend style.metrics.curvePull
  have htop := congrArg (· - style.metrics.bypassHeight) h.y
  exact Primitive.stretchesTo_path rfl rfl (.cons ⟨h.x, h.y⟩ (.cons ⟨hin _, h.y⟩
    (.cons ⟨hin _, htop⟩ (.cons ⟨hin _, htop⟩ (.cons ⟨hout, htop⟩ (.cons ⟨hout, h.y⟩
      (.cons ⟨hend, h.y⟩ .nil)))))))

/-- So does the way back, with its arrowhead. -/
theorem stretchesTo_loop (h : cursor.Ahead cursor') (hend : finish.x ≤ finish'.x) :
    List.Forall₂ Primitive.StretchesTo
      (loop (style.withFontSize size) cursor.x finish.x cursor.y)
      (loop (style.withFontSize size') cursor'.x finish'.x cursor'.y) := by
  have hin := sub_le_sub_right h.x style.metrics.loopOverhang
  have hout := add_le_add_left hend style.metrics.loopOverhang
  have hbottom := congrArg (· + style.metrics.loopHeight) h.y
  refine .cons (Primitive.stretchesTo_path rfl rfl (.cons ⟨hend, h.y⟩ (.cons ⟨hout, h.y⟩
    (.cons ⟨hout, hbottom⟩ (.cons ⟨h.x, hbottom⟩ (.cons ⟨hin, hbottom⟩ (.cons ⟨hin, h.y⟩
      (.cons ⟨h.x, h.y⟩ .nil)))))))) (.cons ⟨?_, _, _, rfl, rfl, ?_, ?_, ?_⟩ .nil)
  · exact congrArg (fun y => (Kind.arrow, [y, style.metrics.arrowSize])) hbottom
  · exact congrArg (· - style.metrics.arrowSize) hbottom
  · exact congrArg (· + style.metrics.arrowSize) hbottom
  · exact add_le_add_left (add_le_add_left h.x _) _

/-- Both connectors are straight, or both are curved, with either font. -/
theorem stretchesTo_connectors (h : cursor.Ahead cursor') {exit exit' : ℚ} (hexit : exit ≤ exit')
    {branch branch' : Branch ℚ} (hentry : branch.entry.Ahead branch'.entry)
    (hend : branch.endX ≤ branch'.endX) :
    List.Forall₂ Primitive.StretchesTo
      (connectors (style.withFontSize size) cursor exit branch)
      (connectors (style.withFontSize size') cursor' exit' branch') := by
  have hin := add_le_add_left h.x style.metrics.curvePull
  have hout := sub_le_sub_right hexit style.metrics.curvePull
  rw [connectors, connectors, hentry.y, h.y]
  -- straight or curved, with the same points but for how far they are ahead
  split
  · exact .cons (Primitive.stretchesTo_path rfl rfl (.cons ⟨h.x, rfl⟩ (.cons ⟨hentry.x, rfl⟩ .nil)))
      (.cons (Primitive.stretchesTo_path rfl rfl (.cons ⟨hend, rfl⟩ (.cons ⟨hexit, rfl⟩ .nil)))
        .nil)
  · exact .cons (Primitive.stretchesTo_path rfl rfl (.cons ⟨h.x, rfl⟩ (.cons ⟨hin, rfl⟩
        (.cons ⟨hin, rfl⟩ (.cons ⟨hentry.x, rfl⟩ .nil)))))
      (.cons (Primitive.stretchesTo_path rfl rfl (.cons ⟨hend, rfl⟩ (.cons ⟨hout, rfl⟩
        (.cons ⟨hout, rfl⟩ (.cons ⟨hexit, rfl⟩ .nil))))) .nil)

/-- The caption of a count differs by a stretch. -/
theorem stretchesTo_countCaption (h : cursor.Ahead cursor') (quantifier : String) :
    (countCaption (style.withFontSize size) quantifier cursor).StretchesTo
      (countCaption (style.withFontSize size') quantifier cursor') where
  vertical := by simp only [countCaption, Primitive.vertical, Style.withFontSize, h.y]
  extents := ⟨_, _, rfl, rfl, congrArg (· - _ - _) h.y, congrArg (· - _ + _) h.y,
    add_le_add_left h.x _⟩

/-- The caption of a group differs by a stretch. -/
theorem stretchesTo_captionOf (size size' : ℚ) (h : cursor.Ahead cursor') (kind : GroupKind) :
    List.Forall₂ Primitive.StretchesTo (captionOf (style.withFontSize size) kind cursor)
      (captionOf (style.withFontSize size') kind cursor') := by
  rw [captionOf, captionOf]
  split
  · exact .nil
  · refine .cons ⟨?_, _, _, rfl, rfl, congrArg (· - _ - _) h.y, congrArg (· - _ + _) h.y,
      add_le_add_left (add_le_add_left h.x _) _⟩ .nil
    simp only [Primitive.vertical, Style.withFontSize, h.y]

/-! ### Exits and frames -/

/-- The exit of a choice moves to the right with its start and the ends of its branches. -/
theorem exitX_mono (style style' : Style ℚ) {count : Nat} {ends ends' : Nat → Point ℚ}
    (h : cursor.x ≤ cursor'.x) (hends : ∀ i < count, (ends i).x ≤ (ends' i).x) :
    exitX cursor (branchesTo style cursor count ends) ≤
      exitX cursor' (branchesTo style' cursor' count ends') := by
  rcases (isGreatest_exitX cursor (branchesTo style cursor count ends)).1 with
    heq | ⟨branch, hmem, heq⟩
  · rw [heq]
    exact h.trans (le_exitX cursor' _)
  · obtain ⟨i, hi, rfl⟩ := List.mem_map.1 hmem
    have hcount := List.mem_range.1 hi
    rw [heq]
    exact (hends i hcount).trans (finish_le_exitX style' cursor' ends' hcount)

/-- The frame around a drawing is stretched with it. -/
theorem stretchesTo_frameBounds (size size' : ℚ) {drawn drawn' : List (Primitive ℚ)}
    (h : cursor.y = cursor'.y) (hend : finish.x ≤ finish'.x)
    (hdrawn : List.Forall₂ Primitive.StretchesTo drawn drawn') :
    (frameBounds (style.withFontSize size) drawn cursor finish).StretchesTo
      (frameBounds (style.withFontSize size') drawn' cursor' finish') := by
  obtain ⟨hull, hhull, heq⟩ := frameBounds_eq_expand (style.withFontSize size) drawn cursor finish
  obtain ⟨hull', hhull', heq'⟩ :=
    frameBounds_eq_expand (style.withFontSize size') drawn' cursor' finish'
  rw [heq, heq']
  refine (hhull.stretchesTo hhull' (.cons ⟨?_, ?_, hend⟩ (forall₂_extents hdrawn))).expand _
  · exact congrArg (· - style.metrics.boxHeight / 2) h
  · exact congrArg (· + style.metrics.boxHeight / 2) h

/-- A frame differs by a stretch if its bounds do. -/
theorem stretchesTo_frame {bounds bounds' : Bounds ℚ} (h : bounds.StretchesTo bounds') :
    (Primitive.frame (frameWith (style.withFontSize size) bounds)).StretchesTo
      (.frame (frameWith (style.withFontSize size') bounds')) where
  vertical := by simp only [frameWith, Primitive.vertical, h.minY, h.height]
  extents := ⟨_, _, rfl, rfl, by rwa [frameWith_extent, frameWith_extent]⟩

/-! ### Trees -/

/-- An alternative starts further to the right if the choice does. -/
theorem ahead_branchEntry (h : cursor.Ahead cursor') (count i : Nat) :
    (branchEntry (style.withFontSize size) cursor count i).Ahead
      (branchEntry (style.withFontSize size') cursor' count i) :=
  ⟨add_le_add_left h.x _, congrArg (· + _) h.y⟩

/-- Parts that are related one by one are related as they stand one behind the other. -/
theorem forall₂_flatMap_range {β γ : Type} {rel : β → γ → Prop} {count : Nat}
    {f : Nat → List β} {g : Nat → List γ} (h : ∀ i < count, List.Forall₂ rel (f i) (g i)) :
    List.Forall₂ rel ((List.range count).flatMap f) ((List.range count).flatMap g) :=
  List.rel_flatMap (R := fun i j => List.Forall₂ rel (f i) (g j))
    (List.forall₂_same.2 fun i hi => h i (List.mem_range.1 hi)) fun _ _ hij => hij

variable {style}

/-- **With a larger font, and from further to the right, a node draws what it draws with the
smaller one, stretched to the right**, and ends no further to the left. -/
theorem Draws.stretches (hsize : size ≤ size') {node : Node} {drawn : List (Primitive ℚ)}
    (h : Draws (style.withFontSize size) node cursor drawn finish)
    (hcursor : cursor.Ahead cursor') :
    ∃ drawn' finish', Draws (style.withFontSize size') node cursor' drawn' finish' ∧
      List.Forall₂ Primitive.StretchesTo drawn drawn' ∧ finish.Ahead finish' := by
  -- the other drawing is put together by the same rules, from wherever the parts before it end
  induction h generalizing cursor' with
  | @terminal node label fill stroke look cursor =>
      have hwidth := boxWidth_mono style hsize label
      refine ⟨_, _, @Draws.terminal ℚ _ (style.withFontSize size') _ _ _ _ look cursor',
        .cons (stretchesTo_boxAt style hcursor hwidth label fill stroke) .nil, ?_⟩
      exact hcursor.move (add_le_add_left (add_le_add hcursor.x hwidth) _)
  | charClass items negated cursor =>
      have hwidth := classWidth_mono style hsize (classCaption negated) (items.map itemLabel)
      refine ⟨_, _, .charClass items negated cursor',
        .cons (stretchesTo_classCaption style hsize hcursor items negated)
          (stretchesTo_itemBoxes style hsize hcursor _), ?_⟩
      exact hcursor.move (add_le_add_left (add_le_add hcursor.x hwidth) _)
  | nil cursor => exact ⟨_, _, .nil cursor', .nil, hcursor⟩
  | cons _ _ ihItem ihItems =>
      obtain ⟨drawn', middle', hitem, hdrawn, hmiddle⟩ := ihItem hcursor
      obtain ⟨others', finish', hitems, hothers, hfinish⟩ := ihItems hmiddle
      exact ⟨_, _, .cons hitem hitems, List.rel_append hdrawn hothers, hfinish⟩
  | @choice alternatives cursor drawn finish _ ih =>
      obtain ⟨drawn', finish', hstretched⟩ := exists_forall_getElem? [] cursor' fun i node hi =>
        ih i node hi (ahead_branchEntry style hcursor alternatives.length i)
      have hpart {i : Nat} (hi : i < alternatives.length) :=
        hstretched i _ (List.getElem?_eq_getElem hi)
      have hexit := exitX_mono (style.withFontSize size) (style.withFontSize size') hcursor.x
        fun i hi => (hpart hi).2.2.x
      refine ⟨_, _, .choice drawn' finish' fun i node hi => (hstretched i node hi).1,
        List.rel_append (forall₂_flatMap_range fun i hi => (hpart hi).2.1) ?_,
        hcursor.move (add_le_add_left hexit _)⟩
      rw [branchesTo, branchesTo, List.flatMap_map, List.flatMap_map]
      exact forall₂_flatMap_range fun i hi => stretchesTo_connectors style hcursor hexit
        (ahead_branchEntry style hcursor _ i) (hpart hi).2.2.x
  | optional _ ih =>
      obtain ⟨drawn', finish', hitem, hdrawn, hfinish⟩ :=
        ih (hcursor.move (add_le_add_left hcursor.x _))
      exact ⟨_, _, .optional hitem, List.rel_append hdrawn
        (.cons (stretchesTo_bypass style hcursor hfinish.x) .nil), hfinish⟩
  | zeroOrMore _ ih =>
      have hstart := hcursor.move (add_le_add_left hcursor.x style.metrics.branchOffset)
      obtain ⟨drawn', finish', hitem, hdrawn, hfinish⟩ := ih hstart
      exact ⟨_, _, .zeroOrMore hitem, List.rel_append hdrawn
        (.cons (stretchesTo_bypass style hcursor hfinish.x)
          (stretchesTo_loop style hstart hfinish.x)), hfinish⟩
  | oneOrMore _ ih =>
      obtain ⟨drawn', finish', hitem, hdrawn, hfinish⟩ := ih hcursor
      exact ⟨_, _, .oneOrMore hitem,
        List.rel_append hdrawn (stretchesTo_loop style hcursor hfinish.x), hfinish⟩
  | counted quantifier _ ih =>
      obtain ⟨drawn', finish', hitem, hdrawn, hfinish⟩ := ih hcursor
      exact ⟨_, _, .counted quantifier hitem,
        .cons (stretchesTo_countCaption style hcursor quantifier) hdrawn, hfinish⟩
  | @group content cursor finish drawn kind _ ih =>
      obtain ⟨drawn', finish', hcontent, hdrawn, hfinish⟩ :=
        ih (hcursor.move (add_le_add_left hcursor.x _))
      have hinside := List.rel_append (stretchesTo_captionOf style size size' hcursor kind) hdrawn
      have hbounds := stretchesTo_frameBounds style size size' hcursor.y hfinish.x hinside
      exact ⟨_, _, .group kind hcontent,
        List.rel_append hinside (.cons (stretchesTo_frame style hbounds) .nil),
        hcursor.move (add_le_add_left hbounds.maxX _)⟩
  | empty cursor => exact ⟨_, _, .empty cursor', .nil, hcursor⟩

end Layout
end Railroad
