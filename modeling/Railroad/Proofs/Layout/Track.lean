/-
# The track runs to the right

With sizes and distances that are not negative, a node ends on the track line it
started from and no further to the left.  Its boxes do not lie to the left of its
start, and its boxes and frames end in front of the gap before its end (`OnTrack`).
This holds of every rule by which a drawing is put together (`Draws.onTrack`):

| node | why its boxes and frames end in front of the gap |
| --- | --- |
| terminal | its box ends there |
| class | the row of its boxes is no wider than the class |
| sequence | the track goes on behind an item |
| choice | the exit is no further to the left than the end of a branch |
| group | its frame ends there and encloses what it holds |

So in a sequence, whatever its items are, the boxes of an item end a gap in front of
the boxes of any later item (`track_invariant`).
-/

import Mathlib.Tactic.Ring
import Railroad.Proofs.Layout.Frames
import Railroad.Proofs.Layout.Pieces

namespace Railroad
namespace Layout

open Pattern Drawing Bounds

/-- Sizes and distances that are not negative. -/
structure Metrics.Nonneg (m : Metrics ℚ) : Prop where
  fontSize : 0 ≤ m.fontSize
  captionSize : 0 ≤ m.captionSize
  boxPadding : 0 ≤ m.boxPadding
  boxHeight : 0 ≤ m.boxHeight
  boxRadius : 0 ≤ m.boxRadius
  lineWidth : 0 ≤ m.lineWidth
  spacing : 0 ≤ m.spacing
  classItemGap : 0 ≤ m.classItemGap
  choiceSpacing : 0 ≤ m.choiceSpacing
  branchOffset : 0 ≤ m.branchOffset
  curvePull : 0 ≤ m.curvePull
  bypassHeight : 0 ≤ m.bypassHeight
  loopHeight : 0 ≤ m.loopHeight
  loopOverhang : 0 ≤ m.loopOverhang
  arrowSize : 0 ≤ m.arrowSize
  classCaptionOffset : 0 ≤ m.classCaptionOffset
  countCaptionOffset : 0 ≤ m.countCaptionOffset
  groupCaptionOffset : 0 ≤ m.groupCaptionOffset
  groupPadding : 0 ≤ m.groupPadding
  originX : 0 ≤ m.originX
  originY : 0 ≤ m.originY

/-- The metrics that are used if nothing else is asked for are not negative. -/
theorem nonneg_default : ({} : Metrics ℚ).Nonneg := by
  constructor <;> exact Nat.cast_nonneg _

variable {style : Style ℚ}

/-! ### Widths -/

/-- No box is of negative width, … -/
theorem Metrics.Nonneg.boxWidth (h : style.metrics.Nonneg) (label : String) :
    0 ≤ boxWidth style.metrics label :=
  add_nonneg (textWidth_nonneg _ h.fontSize) (mul_nonneg (Nat.cast_nonneg _) h.boxPadding)

/-- … nor is a member of a class, … -/
theorem Metrics.Nonneg.itemWidth (h : style.metrics.Nonneg) (label : String) :
    0 ≤ itemWidth style label := add_nonneg (textWidth_nonneg _ h.fontSize) h.boxPadding

/-- The width of the boxes of class members in a row, gaps included. -/
def rowWidth (style : Style ℚ) (labels : List String) : ℚ :=
  (labels.map (itemWidth style)).sum + style.metrics.classItemGap * (labels.length - 1 : ℕ)

/-- A row of one member is as wide as the member. -/
theorem rowWidth_singleton (label : String) : rowWidth style [label] = itemWidth style label := by
  simp [rowWidth]

/-- Between two members of a row there is a gap. -/
theorem rowWidth_cons_cons (label next : String) (labels : List String) :
    rowWidth style (label :: next :: labels) =
      itemWidth style label + style.metrics.classItemGap + rowWidth style (next :: labels) := by
  simp only [rowWidth, List.map_cons, List.sum_cons, List.length_cons, Nat.add_sub_cancel]
  push_cast
  ring

/-- … nor a row of them. -/
theorem Metrics.Nonneg.rowWidth (h : style.metrics.Nonneg) (labels : List String) :
    0 ≤ rowWidth style labels := by
  refine add_nonneg (List.sum_nonneg fun width hwidth => ?_)
    (mul_nonneg h.classItemGap (Nat.cast_nonneg _))
  obtain ⟨label, -, rfl⟩ := List.mem_map.1 hwidth
  exact h.itemWidth label

/-- A class is as wide as its caption needs or as the row of its boxes is. -/
theorem classWidth_eq_max (caption : String) (labels : List String) :
    classWidth style caption labels =
      max (boxWidth style.metrics caption) (rowWidth style labels) := by
  rw [classWidth, Scalar.greatest_eq_max, Scalar.sum_eq_sum]
  rfl

/-- The boxes of a class lie in the row that starts at the cursor. -/
theorem itemBoxes_within (h : style.metrics.Nonneg) {labels : List String} {cursor : Point ℚ}
    {b : Box ℚ} (hb : b ∈ boxes (itemBoxes style cursor labels)) :
    cursor.x ≤ b.x ∧ b.x + b.width ≤ cursor.x + rowWidth style labels := by
  induction labels generalizing cursor with
  | nil => cases hb
  | cons label labels ih =>
      have hwidth := h.itemWidth label
      have hgap := h.classItemGap
      cases labels with
      | nil =>
          rw [List.mem_singleton.1 hb, rowWidth_singleton]
          exact ⟨le_rfl, le_rfl⟩
      | cons next labels =>
          rw [rowWidth_cons_cons]
          -- the first box, or one of the others, which start behind it and the gap
          rcases List.mem_cons.1 hb with rfl | hb
          · have hrow := h.rowWidth (next :: labels)
            exact ⟨le_rfl, by linarith⟩
          · obtain ⟨hleft, hright⟩ := ih hb
            simp only [Point.withX] at hleft hright
            exact ⟨by linarith, by linarith⟩

/-! ### The exit of a choice -/

/-- The widest branch, sought from the first to the last, is as wide as any. -/
theorem le_foldl_greatest (cursor : Point ℚ) (branches : List (Branch ℚ)) (width : ℚ) :
    width ≤ branches.foldl (fun w b => Scalar.greatest w (b.endX - cursor.x)) width ∧
      ∀ b ∈ branches, b.endX - cursor.x ≤
        branches.foldl (fun w b => Scalar.greatest w (b.endX - cursor.x)) width := by
  induction branches generalizing width with
  | nil => exact ⟨le_rfl, fun _ hb => absurd hb List.not_mem_nil⟩
  | cons branch branches ih =>
      have hle : width ≤ Scalar.greatest width (branch.endX - cursor.x) ∧
          branch.endX - cursor.x ≤ Scalar.greatest width (branch.endX - cursor.x) := by
        rw [Scalar.greatest_eq_max]
        exact ⟨le_max_left _ _, le_max_right _ _⟩
      obtain ⟨hwidth, hbranches⟩ := ih (Scalar.greatest width (branch.endX - cursor.x))
      exact ⟨hle.1.trans hwidth, List.forall_mem_cons.2 ⟨hle.2.trans hwidth, hbranches⟩⟩

/-- The exit of a choice is not to the left of its entry. -/
theorem le_exitX (cursor : Point ℚ) (branches : List (Branch ℚ)) :
    cursor.x ≤ exitX cursor branches := by
  have h := (le_foldl_greatest cursor branches 0).1
  rw [exitX, Nat.cast_zero]
  linarith

/-- The exit of a choice is not to the left of the end of a branch. -/
theorem endX_le_exitX (cursor : Point ℚ) {branches : List (Branch ℚ)} {branch : Branch ℚ}
    (h : branch ∈ branches) : branch.endX ≤ exitX cursor branches := by
  have h := (le_foldl_greatest cursor branches 0).2 branch h
  rw [exitX, Nat.cast_zero]
  linarith

/-- No branch ends behind the place where the branches come together again. -/
theorem finish_le_exitX (style : Style ℚ) (cursor : Point ℚ) (finish : Nat → Point ℚ)
    {count i : Nat} (h : i < count) :
    (finish i).x ≤ exitX cursor (branchesTo style cursor count finish) :=
  endX_le_exitX cursor (List.mem_map.2 ⟨i, List.mem_range.2 h, rfl⟩)

/-- The furthest end of some branches is the start of the choice, or the end of one. -/
theorem foldl_greatest_eq (cursor : Point ℚ) (branches : List (Branch ℚ)) (width : ℚ) :
    branches.foldl (fun w b => Scalar.greatest w (b.endX - cursor.x)) width = width ∨
      ∃ b ∈ branches,
        branches.foldl (fun w b => Scalar.greatest w (b.endX - cursor.x)) width =
          b.endX - cursor.x := by
  induction branches generalizing width with
  | nil => exact .inl rfl
  | cons branch branches ih =>
      rw [List.foldl_cons]
      rcases ih (Scalar.greatest width (branch.endX - cursor.x)) with heq | ⟨b, hb, heq⟩
      · rw [heq, Scalar.greatest_eq_max]
        rcases max_choice width (branch.endX - cursor.x) with hmax | hmax
        · exact .inl hmax
        · exact .inr ⟨branch, List.mem_cons_self, hmax⟩
      · exact .inr ⟨b, List.mem_cons_of_mem _ hb, heq⟩

/-- **The exit of a choice is the furthest of its start and the ends of its branches.** -/
theorem isGreatest_exitX (cursor : Point ℚ) (branches : List (Branch ℚ)) :
    IsGreatest {x | x = cursor.x ∨ ∃ b ∈ branches, x = b.endX} (exitX cursor branches) := by
  constructor
  · rw [Set.mem_ofPred_eq, exitX, Nat.cast_zero]
    rcases foldl_greatest_eq cursor branches 0 with heq | ⟨b, hb, heq⟩
    · exact .inl (by rw [heq, add_zero])
    · exact .inr ⟨b, hb, by rw [heq, add_sub_cancel]⟩
  · rintro x (rfl | ⟨b, hb, rfl⟩)
    · exact le_exitX cursor branches
    · exact endX_le_exitX cursor hb

/-! ### The invariant -/

/-- Where a drawing ends, and where its boxes and frames lie. -/
structure OnTrack (style : Style ℚ) (cursor : Point ℚ) (drawn : List (Primitive ℚ))
    (finish : Point ℚ) : Prop where
  /-- The track goes on along its line, … -/
  line : finish.y = cursor.y
  /-- … and not backwards. -/
  advance : cursor.x ≤ finish.x
  /-- No box starts in front of the cursor. -/
  left : ∀ b ∈ boxes drawn, cursor.x ≤ b.x
  /-- Every box and every frame ends in front of the finish, with the gap between. -/
  right : ∀ x ∈ rights drawn, x ≤ finish.x - style.metrics.spacing

namespace OnTrack

variable {cursor middle finish : Point ℚ} {drawn others : List (Primitive ℚ)}

/-- Nothing drawn, and nowhere gone. -/
theorem refl (style : Style ℚ) (cursor : Point ℚ) : OnTrack style cursor [] cursor where
  line := rfl
  advance := le_rfl
  left _ hb := absurd hb List.not_mem_nil
  right _ hx := absurd hx List.not_mem_nil

/-- One drawing behind another. -/
theorem append (hfirst : OnTrack style cursor drawn middle)
    (hsecond : OnTrack style middle others finish) :
    OnTrack style cursor (drawn ++ others) finish where
  line := hsecond.line.trans hfirst.line
  advance := hfirst.advance.trans hsecond.advance
  left b hb := by
    rw [boxes, List.filterMap_append, List.mem_append] at hb
    rcases hb with hb | hb
    · exact hfirst.left b hb
    · exact hfirst.advance.trans (hsecond.left b hb)
  right x hx := by
    rw [rights, List.filterMap_append, List.mem_append] at hx
    rcases hx with hx | hx
    · exact (hfirst.right x hx).trans (sub_le_sub_right hsecond.advance _)
    · exact hsecond.right x hx

/-- Pieces without boxes and frames change nothing. -/
theorem of_solids_eq (h : OnTrack style cursor drawn finish) (hboxes : boxes others = boxes drawn)
    (hrights : rights others = rights drawn) : OnTrack style cursor others finish where
  line := h.line
  advance := h.advance
  left b hb := h.left b (hboxes ▸ hb)
  right x hx := h.right x (hrights ▸ hx)

/-- A drawing that starts further along the track. -/
theorem of_moved {offset : ℚ} (hoffset : 0 ≤ offset)
    (h : OnTrack style (cursor.withX (cursor.x + offset)) drawn finish) :
    OnTrack style cursor drawn finish := by
  have hmoved : cursor.x ≤ (cursor.withX (cursor.x + offset)).x := le_add_of_nonneg_right hoffset
  exact ⟨h.line, hmoved.trans h.advance, fun b hb => hmoved.trans (h.left b hb), h.right⟩

end OnTrack

/-- A frame ends to the right of the track inside it, and of everything it encloses. -/
theorem le_frameBounds_maxX (h : style.metrics.Nonneg) (drawn : List (Primitive ℚ))
    (cursor finish : Point ℚ) :
    finish.x ≤ (frameBounds style drawn cursor finish).maxX ∧
      ∀ p ∈ drawn, ∀ b, p.extent? = some b →
        b.maxX ≤ (frameBounds style drawn cursor finish).maxX := by
  obtain ⟨hull, hhull, heq⟩ := frameBounds_eq_expand style drawn cursor finish
  have hle : hull.maxX ≤ (frameBounds style drawn cursor finish).maxX := by
    rw [heq]
    exact le_add_of_nonneg_right h.groupPadding
  refine ⟨((hhull.covers (List.mem_cons_self ..)).maxX).trans hle, fun p hp b hb => ?_⟩
  exact ((hhull.covers (List.mem_cons_of_mem _ (mem_extents hp hb))).maxX).trans hle

/-- A terminal advances the cursor by its width and the spacing. -/
theorem onTrack_terminal (h : style.metrics.Nonneg) (cursor : Point ℚ)
    (label fill stroke : String) :
    OnTrack style cursor [boxAt style cursor (boxWidth style.metrics label) label fill stroke]
      (cursor.withX (cursor.x + boxWidth style.metrics label + style.metrics.spacing)) where
  line := rfl
  advance := by
    have hwidth := h.boxWidth label
    have hspacing := h.spacing
    simp only [Point.withX]
    linarith
  left b hb := (List.mem_singleton.1 hb) ▸ le_rfl
  right x hx := by
    rw [List.mem_singleton.1 hx]
    exact (add_sub_cancel_right _ _).ge

/-- A class advances the cursor by its width, in which the boxes of its members lie, and the
spacing. -/
theorem onTrack_itemBoxes (h : style.metrics.Nonneg) (caption : String) (labels : List String)
    (cursor : Point ℚ) :
    OnTrack style cursor (itemBoxes style cursor labels)
      (cursor.withX (cursor.x + classWidth style caption labels + style.metrics.spacing)) := by
  -- a class is as wide as its caption or as its row, so the row lies in it
  have hrow := le_max_right (boxWidth style.metrics caption) (rowWidth style labels)
  rw [← classWidth_eq_max] at hrow
  have hnonneg := h.rowWidth labels
  have hspacing := h.spacing
  refine ⟨rfl, ?_, fun b hb => (itemBoxes_within h hb).1, fun x hx => ?_⟩
  · simp only [Point.withX]
    linarith
  · obtain ⟨p, hp, hright⟩ := List.mem_filterMap.1 hx
    obtain ⟨_, _, rfl⟩ := mem_itemBoxes hp
    obtain rfl := Option.some.inj hright
    have hwithin := (itemBoxes_within h (mem_boxes.2 hp)).2
    simp only [Point.withX] at hwithin ⊢
    linarith

/-- A choice advances the cursor to behind its longest branch, and the spacing; what stays in
front of the end of its own branch stays in front of this. -/
theorem onTrack_choice (h : style.metrics.Nonneg) {cursor : Point ℚ} {count : Nat}
    {drawn : Nat → List (Primitive ℚ)} {finish : Nat → Point ℚ}
    (hparts : ∀ i < count, OnTrack style (branchEntry style cursor count i) (drawn i) (finish i)) :
    OnTrack style cursor ((List.range count).flatMap drawn)
      (cursor.withX (exitX cursor (branchesTo style cursor count finish) +
        style.metrics.spacing)) := by
  have hspacing := h.spacing
  have hexit := le_exitX cursor (branchesTo style cursor count finish)
  -- the exit is behind the end of every branch, and each branch is behind its entry
  refine ⟨rfl, ?_, fun b hb => ?_, fun x hx => ?_⟩
  · simp only [Point.withX]
    linarith
  · obtain ⟨i, hi, hb⟩ := List.mem_flatMap.1 (mem_boxes.1 hb)
    have hleft := (hparts i (List.mem_range.1 hi)).left b (mem_boxes.2 hb)
    have hoffset := h.branchOffset
    simp only [branchEntry] at hleft
    linarith
  · rw [rights, List.filterMap_flatMap] at hx
    obtain ⟨i, hi, hx⟩ := List.mem_flatMap.1 hx
    have hright := (hparts i (List.mem_range.1 hi)).right x hx
    have hend := finish_le_exitX style cursor finish (List.mem_range.1 hi)
    simp only [Point.withX]
    linarith

/-- A group advances the cursor to behind its frame, and the spacing.  The frame covers all that
the content draws, with the padding around it, so nothing of it gets in front of the cursor. -/
theorem onTrack_group (h : style.metrics.Nonneg) (kind : GroupKind) {cursor finish : Point ℚ}
    {drawn : List (Primitive ℚ)} {bounds : Bounds ℚ}
    (hbounds : bounds = frameBounds style (captionOf style kind cursor ++ drawn) cursor finish)
    (hcontent : OnTrack style (contentStart style cursor) drawn finish) :
    OnTrack style cursor (captionOf style kind cursor ++ drawn ++ [.frame (frameWith style bounds)])
      (cursor.withX (bounds.maxX + style.metrics.spacing)) := by
  have hspacing := h.spacing
  obtain ⟨hfinish, hdrawn⟩ :=
    le_frameBounds_maxX h (captionOf style kind cursor ++ drawn) cursor finish
  rw [← hbounds] at hfinish hdrawn
  -- the content starts at the padding, and for the boxes this is further ahead than the cursor
  have hmoved := hcontent.of_moved h.groupPadding
  have hframe : (frameWith style bounds).x + (frameWith style bounds).width = bounds.maxX :=
    congrArg Bounds.maxX (frameWith_extent style bounds)
  refine ⟨rfl, ?_, fun b hb => hmoved.left b (by simpa using hb), fun x hx => ?_⟩
  · have hadvance := hmoved.advance
    simp only [Point.withX]
    linarith
  · rw [rights, List.filterMap_append, List.mem_append] at hx
    simp only [Point.withX, add_sub_cancel_right]
    -- either a right side of something enclosed, or the one of the frame itself
    rcases hx with hx | hx
    · obtain ⟨p, hp, hright⟩ := List.mem_filterMap.1 hx
      obtain ⟨extent, hextent, rfl⟩ := extent_of_right? hright
      exact hdrawn p hp extent hextent
    · rw [List.mem_singleton.1 hx, hframe]

/-- **A drawing stays on its track.** -/
theorem Draws.onTrack (h : style.metrics.Nonneg) {node : Node} {cursor finish : Point ℚ}
    {drawn : List (Primitive ℚ)} (hdraws : Draws style node cursor drawn finish) :
    OnTrack style cursor drawn finish := by
  induction hdraws with
  | terminal look cursor => exact onTrack_terminal h cursor _ _ _
  | charClass items negated cursor =>
      exact (onTrack_itemBoxes h _ (items.map itemLabel) cursor).of_solids_eq (by simp) (by simp)
  | nil cursor => exact .refl style cursor
  | cons _ _ ihItem ihItems => exact ihItem.append ihItems
  -- connections, bypasses and ways back are no boxes and no frames
  | choice drawn finish _ ih =>
      have hchoice := onTrack_choice h fun i hi => ih i _ (List.getElem?_eq_getElem hi)
      exact hchoice.of_solids_eq (by simp) (by simp)
  | optional _ ih => exact (ih.of_moved h.branchOffset).of_solids_eq (by simp) (by simp)
  | zeroOrMore _ ih => exact (ih.of_moved h.branchOffset).of_solids_eq (by simp) (by simp)
  | oneOrMore _ ih => exact ih.of_solids_eq (by simp) (by simp)
  | counted quantifier _ ih => exact ih.of_solids_eq (by simp) (by simp)
  | group kind _ ih => exact onTrack_group h kind rfl ih
  | empty cursor => exact .refl style cursor

/-! ### Sequences -/

/-- A relation between what is drawn in front and what is drawn behind holds between the
items of every sequence of a tree, if it holds wherever the track has not run back. -/
theorem inSequences (h : style.metrics.Nonneg) {root : Node} (proper : root.Proper)
    (start : Point ℚ)
    {rel : List (Primitive ℚ) → List (Primitive ℚ) → Prop}
    (hrel : ∀ {item next : Node} {entry finish nextEntry nextFinish : Point ℚ}
      {drawn nextDrawn : List (Primitive ℚ)}, Draws style item entry drawn finish →
        Draws style next nextEntry nextDrawn nextFinish → finish.x ≤ nextEntry.x →
          rel drawn nextDrawn) :
    InSequences style root start rel := by
  refine ⟨fun items => exists_reaches style proper start, ?_⟩
  intro before front item between next back cursor hreaches
  obtain ⟨_, _, hroot⟩ := exists_draws style proper start
  -- the row is drawn somewhere in the tree, and parted at both items
  obtain ⟨_, _, _, hsequence, -⟩ := hreaches.draws hroot
  obtain ⟨_, entry, _, hfront, hback, -⟩ := hsequence.sequence_append
  obtain ⟨_, _, _, hitem, hrest, -⟩ := hback.of_cons
  obtain ⟨_, nextEntry, _, hbetween, hbehind, -⟩ := hrest.sequence_append
  obtain ⟨_, _, _, hnext, -, -⟩ := hbehind.of_cons
  refine ⟨entry, nextEntry, ?_, ?_, ?_⟩
  · rw [hfront.sketch_eq]
  · rw [(hfront.append (.cons hitem hbetween)).sketch_eq]
  · rw [hitem.sketch_eq, hnext.sketch_eq]
    exact hrel hitem hnext (hbetween.onTrack h).advance

/-- **The track invariant.**  A proper tree is drawn, ends on the track line it started
from and not to the left of its start, and has all its boxes between its start and the
gap in front of its end.  In any sequence in it, the boxes of an item end that gap in
front of the boxes of any later item. -/
theorem track_invariant (style : Style ℚ) (h : style.metrics.Nonneg) {node : Node}
    (proper : node.Proper) (cursor : Point ℚ) :
    (∃ drawn finish, sketch style node cursor = ⟨drawn, .ok finish⟩ ∧
      finish.y = cursor.y ∧ cursor.x ≤ finish.x ∧
      ∀ b ∈ boxes drawn, cursor.x ≤ b.x ∧ b.x + b.width ≤ finish.x - style.metrics.spacing) ∧
    InSequences style node cursor fun earlier later =>
      ∀ b ∈ boxes earlier, ∀ b' ∈ boxes later, b.x + b.width + style.metrics.spacing ≤ b'.x := by
  obtain ⟨drawn, finish, hdraws⟩ := exists_draws style proper cursor
  have htrack := hdraws.onTrack h
  refine ⟨⟨drawn, finish, hdraws.sketch_eq, htrack.line, htrack.advance,
    fun b hb => ⟨htrack.left b hb, htrack.right _ (mem_rights_of_mem_boxes hb)⟩⟩, ?_⟩
  refine inSequences h proper cursor fun hitem hnext hle b hb b' hb' => ?_
  have hright := (hitem.onTrack h).right _ (mem_rights_of_mem_boxes hb)
  have hleft := (hnext.onTrack h).left b' hb'
  linarith

/-- The hypotheses of `track_invariant` are satisfiable: an item with a loop of a group of
alternatives behind it. -/
theorem track_invariant_loop :
    ({} : Metrics ℚ).Nonneg ∧
    (Node.sequence [.literal "a",
      .zeroOrMore (.group (.choice [.anyChar, .empty]) .capturing)]).Proper ∧
    InSequences {} (.sequence [.literal "a",
        .zeroOrMore (.group (.choice [.anyChar, .empty]) .capturing)]) ⟨20, 100⟩
      fun earlier later => ∀ b ∈ boxes earlier, ∀ b' ∈ boxes later,
        b.x + b.width + (20 : ℚ) ≤ b'.x :=
  ⟨nonneg_default, by decide, (track_invariant {} nonneg_default (by decide) ⟨20, 100⟩).2⟩

end Layout
end Railroad
