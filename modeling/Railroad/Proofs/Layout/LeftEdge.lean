/-
# Where a drawing starts on the left

Of all that a canonical tree draws, what reaches furthest to the left is told by the tree
alone (`overhangOf`): a loop sticks out of the place where it ends, and a tree sticks out of
its start as far as what stands at its start does.

| tree | how far it sticks out |
| --- | --- |
| one or more | as far as a loop |
| sequence | as far as its first item |
| counted | as far as the item |
| group | as far as the content |
| anything else | not at all |

Behind its start a branch has more room than a loop needs, and an item of a sequence is
followed by a gap, so nothing that is drawn later reaches further.  So the left side of a
diagram depends neither on any label nor on the font (`Draws.edgeAt`).
-/

import Railroad.Proofs.Layout.Connections
import Railroad.Proofs.Layout.Cover
import Railroad.Proofs.Layout.Overhang
import Railroad.Proofs.Pattern.Preorder

namespace Railroad
namespace Layout

open Pattern Drawing Bounds

/-! ### How far a tree sticks out -/

mutual

/-- How far a tree sticks out to the left of its start, if a loop does by `overhang`. -/
def overhangOf (overhang : ℚ) : Node → ℚ
  | .sequence items => overhangOfFirst overhang items
  | .oneOrMore _ => overhang
  | .counted item _ => overhangOf overhang item
  | .group content _ => overhangOf overhang content
  | _ => 0

/-- How far the first of some items in a row sticks out. -/
def overhangOfFirst (overhang : ℚ) : List Node → ℚ
  | [] => 0
  | item :: _ => overhangOf overhang item

end

mutual

/-- The overhang of a tree is not negative. -/
theorem overhangOf_nonneg {overhang : ℚ} (h : 0 ≤ overhang) :
    ∀ node : Node, 0 ≤ overhangOf overhang node
  | .sequence items => overhangOfFirst_nonneg h items
  | .oneOrMore _ => h
  | .counted item _ => overhangOf_nonneg h item
  | .group content _ => overhangOf_nonneg h content
  | .literal _ | .escape _ | .anyChar | .anchorStart | .anchorEnd | .charClass _ _ | .choice _
  | .optional _ | .zeroOrMore _ | .empty | .stray _ => le_rfl

/-- Nor is the overhang of a row, which is that of its first item. -/
theorem overhangOfFirst_nonneg {overhang : ℚ} (h : 0 ≤ overhang) :
    ∀ items : List Node, 0 ≤ overhangOfFirst overhang items
  | [] => le_rfl
  | item :: _ => overhangOf_nonneg h item

end

/-! ### Edges -/

/-- Where a drawing starts: none of it to the left of a place, and some of it there, unless
nothing is drawn. -/
structure EdgeAt (left : ℚ) (drawn : List (Primitive ℚ)) : Prop where
  /-- Nothing starts to the left of the place. -/
  starts : ∀ p ∈ drawn, StartsFrom left p
  /-- Something starts there, if anything is drawn. -/
  attained : drawn ≠ [] → ∃ p ∈ drawn, ∃ b, p.extent? = some b ∧ b.minX = left

variable {left : ℚ} {drawn others : List (Primitive ℚ)}

theorem edgeAt_nil (left : ℚ) : EdgeAt left [] := ⟨List.forall_mem_nil _, fun h => absurd rfl h⟩

/-- A drawing starts where its first part does, if the second does not reach further. -/
theorem EdgeAt.append_left (h : EdgeAt left drawn) (hne : drawn ≠ [])
    (hothers : ∀ p ∈ others, StartsFrom left p) : EdgeAt left (drawn ++ others) where
  starts := List.forall_mem_append.2 ⟨h.starts, hothers⟩
  attained _ := by
    obtain ⟨p, hp, hleft⟩ := h.attained hne
    exact ⟨p, List.mem_append_left _ hp, hleft⟩

/-- A drawing starts where its second part does, if the first does not reach further. -/
theorem EdgeAt.append_right (hdrawn : ∀ p ∈ drawn, StartsFrom left p) (h : EdgeAt left others)
    (hne : others ≠ []) : EdgeAt left (drawn ++ others) where
  starts := List.forall_mem_append.2 ⟨hdrawn, h.starts⟩
  attained _ := by
    obtain ⟨p, hp, hleft⟩ := h.attained hne
    exact ⟨p, List.mem_append_right _ hp, hleft⟩

/-- The bounds of a diagram start where the drawing does. -/
theorem EdgeAt.minX_bounds (h : EdgeAt left drawn) (hne : drawn ≠ []) :
    (Diagram.of drawn).bounds.minX = left := by
  obtain ⟨p, hp, b, hb, hleft⟩ := h.attained hne
  refine le_antisymm ?_ (le_minX_of_ne_nil hne h.starts)
  rw [← hleft]
  exact ((isHull_diagram hp hb).covers (mem_extents hp hb)).minX

/-- A path starts at a point of it that no other lies to the left of. -/
theorem exists_minX_eq {c : Connector ℚ} {q : Point ℚ} (hq : q ∈ c.points)
    (h : StartsFrom q.x (.path c)) : ∃ b, (Primitive.path c).extent? = some b ∧ b.minX = q.x := by
  obtain ⟨b, hb, hleft⟩ := h
  exact ⟨b, hb, le_antisymm ((isHull_unionAll hb).covers (List.mem_map_of_mem hq)).minX hleft⟩

/-! ### Items move the track on -/

variable {style : Style ℚ} {node : Node} {cursor finish : Point ℚ} {inner : Node → Prop}

/-- An atom is followed by a gap. -/
theorem Draws.spacing_le_of_isAtom (h : style.metrics.Nonneg)
    (hdraws : Draws style node cursor drawn finish) (hatom : Node.IsAtom inner node) :
    cursor.x + style.metrics.spacing ≤ finish.x := by
  cases hdraws with
  | @terminal _ label _ _ look _ =>
      have hwidth := h.boxWidth label
      simp only [Point.withX]
      linarith
  | charClass items negated cursor =>
      have hcaption := h.boxWidth (classCaption negated)
      have hwidth := le_max_left (boxWidth style.metrics (classCaption negated))
        (rowWidth style (items.map itemLabel))
      rw [← classWidth_eq_max] at hwidth
      simp only [Point.withX]
      linarith
  -- the frame reaches to the end of the track inside it at least, and this is past the padding
  | @group content _ last inside kind hcontent =>
      have hadvance := (hcontent.onTrack h).advance
      have hframe := (le_frameBounds_maxX h (captionOf style kind cursor ++ inside) cursor last).1
      have hpadding := h.groupPadding
      simp only [Point.withX, contentStart] at hadvance ⊢
      linarith
  | _ => cases hatom

/-- An item is followed by a gap, quantified or not. -/
theorem Draws.spacing_le_of_isItem (h : style.metrics.Nonneg)
    (hdraws : Draws style node cursor drawn finish) (hitem : Node.IsItem inner node) :
    cursor.x + style.metrics.spacing ≤ finish.x := by
  have hoffset := h.branchOffset
  cases hitem with
  | bare hatom => exact hdraws.spacing_le_of_isAtom h hatom
  -- what is around an atom takes room, and the atom is drawn further in
  | optional hatom =>
      cases hdraws with
      | terminal look => cases look
      | optional hinside =>
          have hle := hinside.spacing_le_of_isAtom h hatom
          simp only [Point.withX] at hle
          linarith
  | zeroOrMore hatom =>
      cases hdraws with
      | terminal look => cases look
      | zeroOrMore hinside =>
          have hle := hinside.spacing_le_of_isAtom h hatom
          simp only [Point.withX] at hle
          linarith
  | oneOrMore hatom =>
      cases hdraws with
      | terminal look => cases look
      | oneOrMore hinside => exact hinside.spacing_le_of_isAtom h hatom
  | counted hatom =>
      cases hdraws with
      | terminal look => cases look
      | counted _ hinside => exact hinside.spacing_le_of_isAtom h hatom

/-! ### Pieces -/

/-- What is drawn far enough behind a place does not reach back to it. -/
theorem Draws.startsFrom_of_le (h : style.metrics.Balanced)
    (hdraws : Draws style node cursor drawn finish)
    (hle : left + style.metrics.loopOverhang ≤ cursor.x) : ∀ p ∈ drawn, StartsFrom left p :=
  fun p hp => (hdraws.startsFrom h p hp).mono (by linarith)

/-- Where a path leads from, it starts, if no point of it lies to the left. -/
theorem Leads.minX {curved : Bool} {p : Primitive ℚ} {last : Point ℚ}
    (h : Leads curved p cursor last) (hstarts : StartsFrom cursor.x p) :
    ∃ b, p.extent? = some b ∧ b.minX = cursor.x := by
  obtain ⟨path, rfl, hstart, -, -⟩ := h
  exact exists_minX_eq (List.mem_of_head? hstart) hstarts

/-- A terminal has its left edge at the cursor. -/
theorem edgeAt_terminal (cursor : Point ℚ) (width : ℚ) (label fill stroke : String) :
    EdgeAt cursor.x [boxAt style cursor width label fill stroke] where
  starts := List.forall_mem_singleton.2 (startsFrom_boxAt cursor width label fill stroke)
  attained _ := ⟨_, List.mem_singleton_self _, _, rfl, rfl⟩

/-- So has a class, whose caption is above its boxes. -/
theorem edgeAt_class (h : style.metrics.Balanced) {items : List ClassItem} (hne : items ≠ [])
    (negated : Bool) (cursor : Point ℚ) :
    EdgeAt cursor.x (.caption (classCaptionAt style items negated cursor) ::
      itemBoxes style cursor (items.map itemLabel)) where
  starts := startsFrom_class h items negated cursor
  attained _ := by
    obtain ⟨item, others, rfl⟩ := List.exists_cons_of_ne_nil hne
    exact ⟨_, List.mem_cons_of_mem _ List.mem_cons_self, _, rfl, rfl⟩

/-- So has a bypass, which begins at the cursor. -/
theorem edgeAt_bypass (h : style.metrics.Balanced) (hline : finish.y = cursor.y)
    (hend : cursor.x + style.metrics.branchOffset ≤ finish.x) :
    EdgeAt cursor.x [bypass style cursor.x finish.x cursor.y] := by
  have hpulled := h.curvePull_le
  have hstarts : StartsFrom cursor.x (bypass style cursor.x finish.x cursor.y) :=
    startsFrom_bypass le_rfl h.curvePull h.branchOffset (by linarith)
  exact ⟨List.forall_mem_singleton.2 hstarts,
    fun _ => ⟨_, List.mem_singleton_self _, (leads_bypass style hline).minX hstarts⟩⟩

/-- A loop starts at the overhang to the left of where it ends. -/
theorem edgeAt_loop (h : style.metrics.Balanced) (hle : cursor.x ≤ finish.x) :
    EdgeAt (cursor.x - style.metrics.loopOverhang)
      (loop style cursor.x finish.x cursor.y) := by
  have hstarts := startsFrom_loop (y := cursor.y) h le_rfl hle
  refine ⟨hstarts, fun _ => ⟨_, List.mem_cons_self, ?_⟩⟩
  exact exists_minX_eq (q := ⟨cursor.x - style.metrics.loopOverhang, cursor.y⟩) (by simp)
    (hstarts _ List.mem_cons_self)

/-- The branches of a choice start behind it, and their connectors where it does. -/
theorem edgeAt_choice (h : style.metrics.Balanced)
    (hroom : style.metrics.loopOverhang ≤ style.metrics.branchOffset) {alternatives : List Node}
    {drawn : Nat → List (Primitive ℚ)} {finish : Nat → Point ℚ}
    (hparts : ∀ i node, alternatives[i]? = some node →
      Draws style node (branchEntry style cursor alternatives.length i) (drawn i) (finish i)) :
    EdgeAt cursor.x ((List.range alternatives.length).flatMap drawn ++
      (branchesTo style cursor alternatives.length finish).flatMap (connectors style cursor
        (exitX cursor (branchesTo style cursor alternatives.length finish)))) := by
  have hpart {i : Nat} (hi : i < alternatives.length) :=
    hparts i _ (List.getElem?_eq_getElem hi)
  have hjoins := startsFrom_joins h fun i hi => ((hpart hi).onTrack h.toNonneg).advance
  -- without alternatives nothing is drawn, and otherwise the first connection begins at the
  -- cursor
  by_cases hnone : alternatives = []
  · subst hnone
    exact edgeAt_nil _
  · obtain ⟨into, out, hjoined, hdrawn⟩ := exists_joinedBranches hparts
    have hfirst := List.length_pos_iff.2 hnone
    have hmem : into 0 ∈ (branchesTo style cursor alternatives.length finish).flatMap
        (connectors style cursor
          (exitX cursor (branchesTo style cursor alternatives.length finish))) := by
      rw [hdrawn]
      exact List.mem_flatMap.2 ⟨0, List.mem_range.2 hfirst, List.mem_cons_self⟩
    obtain ⟨curved, hinto, -, -⟩ := hjoined.pair 0 hfirst
    -- an alternative sticks out by less than the room that the connections take in front of it
    refine .append_right (fun p hp => ?_)
      ⟨hjoins, fun _ => ⟨_, hmem, hinto.minX (hjoins _ hmem)⟩⟩ (List.ne_nil_of_mem hmem)
    obtain ⟨i, hi, hp⟩ := List.mem_flatMap.1 hp
    exact (hpart (List.mem_range.1 hi)).startsFrom_of_le h (add_le_add_right hroom _) p hp

/-- The frame of a group starts as far to the left of the group as the content starts to the
left of its own start. -/
theorem edgeAt_group (h : style.metrics.Balanced) (kind : GroupKind) {overhang : ℚ}
    (hoverhang : 0 ≤ overhang) (hnone : drawn = [] → overhang = 0)
    (hcontent : EdgeAt ((contentStart style cursor).x - overhang) drawn) :
    EdgeAt (cursor.x - overhang) (captionOf style kind cursor ++ drawn ++
      [.frame (frameWith style
        (frameBounds style (captionOf style kind cursor ++ drawn) cursor finish))]) := by
  have hpadding := h.groupPadding
  have hinside : ∀ p ∈ captionOf style kind cursor ++ drawn,
      StartsFrom (cursor.x + style.metrics.groupPadding - overhang) p :=
    List.forall_mem_append.2 ⟨fun p hp => (startsFrom_captionOf kind cursor p hp).mono
      (sub_le_self _ hoverhang), hcontent.starts⟩
  have hframe : StartsFrom (cursor.x - overhang) (.frame (frameWith style
      (frameBounds style (captionOf style kind cursor ++ drawn) cursor finish))) :=
    (startsFrom_frame (sub_le_self _ hoverhang) hinside).mono (by linarith)
  obtain ⟨hull, hhull, heq⟩ :=
    frameBounds_eq_expand style (captionOf style kind cursor ++ drawn) cursor finish
  -- the hull starts where the content does, or where the track inside does if there is none
  have hhullX : hull.minX ≤ cursor.x + style.metrics.groupPadding - overhang := by
    by_cases hnil : drawn = []
    · rw [hnone hnil, sub_zero]
      exact (hhull.covers List.mem_cons_self).minX
    · obtain ⟨p, hp, b, hb, hleft⟩ := hcontent.attained hnil
      have hmem := mem_extents (List.mem_append_right (captionOf style kind cursor) hp) hb
      exact ((hhull.covers (List.mem_cons_of_mem _ hmem)).minX).trans hleft.le
  refine .append_right (fun p hp => (hinside p hp).mono (by linarith))
    ⟨List.forall_mem_singleton.2 hframe, fun _ => ⟨_, List.mem_singleton_self _, ?_⟩⟩
    (List.cons_ne_nil _ _)
  obtain ⟨b, hb, hleft⟩ := hframe
  refine ⟨b, hb, le_antisymm ?_ hleft⟩
  obtain rfl := Option.some.inj hb
  rw [frameWith_extent, heq]
  simp only [Bounds.expand]
  linarith

/-- The caption of a counted item starts where the item does. -/
theorem edgeAt_counted (quantifier : String) {overhang : ℚ} (hoverhang : 0 ≤ overhang)
    (hnone : drawn = [] → overhang = 0) (hitem : EdgeAt (cursor.x - overhang) drawn) :
    EdgeAt (cursor.x - overhang) (countCaption style quantifier cursor :: drawn) := by
  have hcaption : StartsFrom (cursor.x - overhang) (countCaption style quantifier cursor) :=
    ⟨_, rfl, sub_le_self _ hoverhang⟩
  by_cases hnil : drawn = []
  · rw [hnil]
    refine ⟨List.forall_mem_singleton.2 hcaption,
      fun _ => ⟨_, List.mem_singleton_self _, _, rfl, ?_⟩⟩
    rw [hnone hnil, sub_zero]
    rfl
  · exact .append_right (List.forall_mem_singleton.2 hcaption) hitem hnil

/-- **Where a canonical tree starts on the left**: as far from its start as it sticks out. -/
theorem Draws.edgeAt (h : style.metrics.Balanced)
    (hroom : style.metrics.loopOverhang ≤ style.metrics.branchOffset) {g : Nat}
    (hcanonical : node.Canonical g) (hdraws : Draws style node cursor drawn finish) :
    EdgeAt (cursor.x - overhangOf style.metrics.loopOverhang node) drawn := by
  have hoffset := h.branchOffset
  have hnonneg := overhangOf_nonneg h.loopOverhang
  induction hdraws generalizing g with
  | @terminal node label fill stroke look cursor =>
      have hnone : overhangOf style.metrics.loopOverhang node = 0 := by cases look <;> rfl
      rw [hnone, sub_zero]
      exact edgeAt_terminal cursor _ label fill stroke
  | charClass items negated cursor =>
      simp only [overhangOf, sub_zero]
      exact edgeAt_class h hcanonical.members_ne_nil negated cursor
  | nil cursor => exact edgeAt_nil _
  | @cons item items cursor middle finish drawn others hitem hitems ihItem _ =>
      have hfirst := hcanonical.isItem_of_mem List.mem_cons_self
      have hmiddle := hitem.spacing_le_of_isItem h.toNonneg hfirst
      have hgap := h.loopOverhang_lt
      have hstick := hnonneg item
      simp only [overhangOf, overhangOfFirst]
      -- behind the first item there is a gap, and no later one sticks out as far
      refine (ihItem (.sequence (.item hfirst))).append_left ?_ (hitems.startsFrom_of_le h ?_)
      · exact fun hnil => hfirst.not_isBlank (hitem.eq_nil_iff.1 hnil)
      · linarith
  | choice drawn finish hparts _ =>
      simp only [overhangOf, sub_zero]
      exact edgeAt_choice h hroom hparts
  | @optional item cursor finish drawn hitem _ =>
      have hadvance := (hitem.onTrack h.toNonneg).advance
      simp only [overhangOf, sub_zero]
      exact .append_right (hitem.startsFrom_of_le h (add_le_add_right hroom _))
        (edgeAt_bypass h hitem.finish_y hadvance) (List.cons_ne_nil _ _)
  | @zeroOrMore item cursor finish drawn hitem _ =>
      have hadvance := (hitem.onTrack h.toNonneg).advance
      have hbypass : EdgeAt cursor.x [bypass style cursor.x finish.x cursor.y] :=
        edgeAt_bypass h hitem.finish_y hadvance
      have hstart : cursor.x ≤
          cursor.x + style.metrics.branchOffset - style.metrics.loopOverhang := by linarith
      simp only [overhangOf, sub_zero]
      exact .append_right (hitem.startsFrom_of_le h (add_le_add_right hroom _))
        (hbypass.append_left (List.cons_ne_nil _ _) (startsFrom_loop h hstart hadvance))
        (List.cons_ne_nil _ _)
  | @oneOrMore item cursor finish drawn hitem _ =>
      have hadvance := (hitem.onTrack h.toNonneg).advance
      exact .append_right (hitem.startsFrom h) (edgeAt_loop h hadvance) (List.cons_ne_nil _ _)
  | @counted item cursor finish drawn quantifier hitem ih =>
      obtain ⟨k, hchild⟩ := hcanonical.of_mem_children (List.mem_singleton_self item)
      refine edgeAt_counted quantifier (hnonneg item) (fun hnil => ?_) (ih hchild)
      rw [hchild.eq_empty (hitem.eq_nil_iff.1 hnil)]
      rfl
  | @group content cursor finish drawn kind hcontent ih =>
      obtain ⟨k, hchild⟩ := hcanonical.of_mem_children (List.mem_singleton_self content)
      refine edgeAt_group h kind (hnonneg content) (fun hnil => ?_) (ih hchild)
      rw [hchild.eq_empty (hcontent.eq_nil_iff.1 hnil)]
      rfl
  | empty cursor => exact edgeAt_nil _

end Layout
end Railroad
