/-
# Which boxes may lie on top of each other

Two boxes are apart when no point lies inside both.  Boxes one behind the other on the
track are apart, and so are boxes on the track lines of two alternatives of a choice,
since these lines are further from each other than a box is high.

But where the alternatives of a choice start depends on how many there are, and not on
what they hold.  A choice inside an alternative moves boxes off the line of that
alternative, towards its neighbours, and no room is made for them.  In `(a|b)|cd` the
box of `b` lies on that of `d` (`not_boxesApart`).

There is no other way for boxes to come to lie on top of each other: one of the two has
been moved off the line of its alternative (`apart_or_acrossBranches`).
-/

import Railroad.Proofs.Layout.Track

namespace Railroad
namespace Drawing

variable {α : Type} [Scalar α]

/-- Whether a point lies inside a box, and on none of its sides. -/
def Box.Inside (b : Box α) (p : Point α) : Prop :=
  (b.x < p.x ∧ p.x < b.x + b.width) ∧ b.y < p.y ∧ p.y < b.y + b.height

instance (b : Box α) (p : Point α) : Decidable (b.Inside p) :=
  inferInstanceAs (Decidable (_ ∧ _))

/-- Two boxes are apart when no point lies inside both. -/
def Box.Apart (b b' : Box α) : Prop := ∀ p, ¬ (b.Inside p ∧ b'.Inside p)

/-- The height at which the middle of a box lies. -/
def Box.middle (b : Box α) : α := b.y + b.height / (2 : Nat)

/-- Boxes one behind the other are apart. -/
theorem Box.apart_of_right_le {b b' : Box ℚ} (h : b.x + b.width ≤ b'.x) : b.Apart b' :=
  fun _ ⟨⟨⟨_, hright⟩, _⟩, ⟨hleft, _⟩, _⟩ => (hright.trans_le h).not_gt hleft

/-- Boxes of one height are apart if their middles are further from each other than that. -/
theorem Box.apart_of_middle {b b' : Box ℚ} {height : ℚ} (hb : b.height = height)
    (hb' : b'.height = height) (h : b.middle + height ≤ b'.middle) : b.Apart b' := by
  rintro p ⟨⟨_, _, hlower⟩, _, hupper, _⟩
  rw [Box.middle, Box.middle, hb, hb'] at h
  rw [hb] at hlower
  linarith

end Drawing

namespace Pattern
namespace Node

mutual

/-- How many choices are inside each other in a tree. -/
def choiceDepth : Node → Nat
  | sequence items => choiceDepthIn items
  | choice alternatives => choiceDepthIn alternatives + 1
  | optional item => choiceDepth item
  | zeroOrMore item => choiceDepth item
  | oneOrMore item => choiceDepth item
  | counted item _ => choiceDepth item
  | group content _ => choiceDepth content
  | _ => 0

/-- How many choices are at most inside each other in the trees of a list. -/
def choiceDepthIn : List Node → Nat
  | [] => 0
  | node :: nodes => max (choiceDepth node) (choiceDepthIn nodes)

end

/-- No alternative is deeper in choices than all of them together. -/
theorem choiceDepth_le_of_mem {node : Node} {nodes : List Node} (h : node ∈ nodes) :
    node.choiceDepth ≤ choiceDepthIn nodes := by
  induction nodes with
  | nil => cases h
  | cons other nodes ih =>
      rcases List.mem_cons.1 h with rfl | h
      · exact le_max_left _ _
      · exact (ih h).trans (le_max_right _ _)

end Node
end Pattern

namespace Layout

open Pattern Drawing

section

variable {α : Type} [Scalar α]

/-! ### Boxes on top of each other -/

/-- Whether no two boxes in the diagram of a pattern lie on top of each other, whatever
the pattern is. -/
def BoxesApart (α : Type) [Scalar α] : Prop :=
  ∀ pattern tree drawing, parse pattern = .ok tree →
    diagram ({} : Style α) tree = .ok drawing →
      (boxes drawing.primitives).Pairwise Box.Apart

/-- If no two boxes lie on top of each other, no point lies inside two of them. -/
theorem BoxesApart.pairwise (h : BoxesApart α) {pattern : String} {tree : Node}
    (hparse : parse pattern = .ok tree) (p : Point α) :
    (boxes (sketch ({} : Style α) tree (origin {})).drawn).Pairwise
      fun b b' => ¬ (b.Inside p ∧ b'.Inside p) := by
  obtain ⟨drawn, finish, hdraws⟩ := exists_draws ({} : Style α) (proper_of_parse hparse) (origin {})
  rw [hdraws.sketch_eq]
  exact (h pattern tree _ hparse hdraws.diagram_eq).imp fun hapart => hapart p

/-- In the diagram of `(a|b)|cd` the boxes of `b` and `d` lie on top of each other.  They
do so in doubles, and it is no matter of rounding. -/
theorem not_boxesApart : ¬ BoxesApart Float ∧ ¬ BoxesApart ℚ := by
  have hparse : parse "(a|b)|cd" = .ok (.choice [
      .group (.choice [.literal "a", .literal "b"]) .capturing,
      .sequence [.literal "c", .literal "d"]]) := by decide +kernel
  constructor
  · intro h
    have hpoint := h.pairwise hparse ⟨(140 : Nat), (115 : Nat)⟩
    revert hpoint
    decide +kernel
  · intro h
    have hpoint := h.pairwise hparse ⟨(140 : Nat), (115 : Nat)⟩
    revert hpoint
    decide +kernel

/-! ### Boxes that are moved off the line -/

variable (style : Style α)

/-- Whether what a tree draws at a place is part of a choice in it. -/
inductive InChoice : Node → Point α → (place : Nat) → Prop where
  | here {alternatives : List Node} {cursor : Point α} {place : Nat} :
      place < (sketch style (.choice alternatives) cursor).drawn.length →
        InChoice (.choice alternatives) cursor place
  | inside {parent child : Node} {cursor entry : Point α} {before : List (Primitive α)}
      {place : Nat} :
      Child style parent cursor before child entry → InChoice child entry place →
        InChoice parent cursor (before.length + place)

/-- Whether what a tree draws at a place is a box off the line on which the tree starts,
and part of a choice in it. -/
def Displaced (node : Node) (entry : Point α) (place : Nat) : Prop :=
  ∃ b, (sketch style node entry).drawn[place]? = some (.box b) ∧ b.middle ≠ entry.y ∧
    InChoice style node entry place

/-- Whether what a tree draws at two places is part of two alternatives of one choice, the
first above the second, and displaced in at least one of them. -/
inductive AcrossBranches : Node → Point α → (place place' : Nat) → Prop where
  | here {alternatives : List Node} {node node' : Node} {cursor entry entry' : Point α}
      {before before' : List (Primitive α)} {place place' : Nat} :
      Child style (.choice alternatives) cursor before node entry →
      Child style (.choice alternatives) cursor before' node' entry' →
      entry.y < entry'.y →
      place < (sketch style node entry).drawn.length →
      place' < (sketch style node' entry').drawn.length →
      (Displaced style node entry place ∨ Displaced style node' entry' place') →
        AcrossBranches (.choice alternatives) cursor (before.length + place)
          (before'.length + place')
  | inside {parent child : Node} {cursor entry : Point α} {before : List (Primitive α)}
      {place place' : Nat} :
      Child style parent cursor before child entry → AcrossBranches child entry place place' →
        AcrossBranches parent cursor (before.length + place) (before.length + place')

variable {style} {item : Node} {items : List Node} {cursor middle : Point α}
  {drawn : List (Primitive α)} {place place' : Nat}

/-- What is in a choice of the first item is in a choice of the row, … -/
theorem InChoice.of_head (h : InChoice style item cursor place) :
    InChoice style (.sequence (item :: items)) cursor place := by
  have hin := InChoice.inside (.head item items cursor) h
  rwa [List.length_nil, Nat.zero_add] at hin

/-- … and so is what is in a choice of a later item, behind all that was drawn before. -/
theorem InChoice.of_tail (hitem : Draws style item cursor drawn middle)
    (h : InChoice style (.sequence items) middle place) :
    InChoice style (.sequence (item :: items)) cursor (drawn.length + place) := by
  cases h with
  | inside hchild hin =>
      rw [← Nat.add_assoc, ← List.length_append]
      exact .inside (hchild.of_tail hitem) hin

/-- What is across the branches of a choice in the first item is so in the row, … -/
theorem AcrossBranches.of_head (h : AcrossBranches style item cursor place place') :
    AcrossBranches style (.sequence (item :: items)) cursor place place' := by
  have hacross := AcrossBranches.inside (.head item items cursor) h
  rwa [List.length_nil, Nat.zero_add, Nat.zero_add] at hacross

/-- … and so is what is across them in a later item. -/
theorem AcrossBranches.of_tail (hitem : Draws style item cursor drawn middle)
    (h : AcrossBranches style (.sequence items) middle place place') :
    AcrossBranches style (.sequence (item :: items)) cursor (drawn.length + place)
      (drawn.length + place') := by
  cases h with
  | inside hchild hin =>
      rw [← Nat.add_assoc, ← Nat.add_assoc, ← List.length_append]
      exact .inside (hchild.of_tail hitem) hin

end

/-! ### Places in a list -/

section

variable {β : Type} {xs ys : List β} {x : β} {place : Nat}

/-- A place in two lists is a place in the first, or behind it one in the second. -/
theorem getElem?_append_cases (h : (xs ++ ys)[place]? = some x) :
    xs[place]? = some x ∨ ∃ inner, place = xs.length + inner ∧ ys[inner]? = some x := by
  rcases lt_or_ge place xs.length with hlt | hge
  · rw [List.getElem?_append_left hlt] at h
    exact .inl h
  · rw [List.getElem?_append_right hge] at h
    exact .inr ⟨place - xs.length, by omega, h⟩

variable {parts : Nat → List β} {i j count : Nat}

/-- A place in several lists one behind the other is a place in one of them. -/
theorem getElem?_flatMap_range (h : ((List.range count).flatMap parts)[place]? = some x) :
    ∃ i < count, ∃ inner, place = ((List.range i).flatMap parts).length + inner ∧
      (parts i)[inner]? = some x := by
  induction count with
  | zero => cases h
  | succ count ih =>
      rw [List.range_succ, List.flatMap_append, List.flatMap_singleton] at h
      rcases getElem?_append_cases h with h | ⟨inner, hplace, h⟩
      · obtain ⟨i, hi, hinner⟩ := ih h
        exact ⟨i, by omega, hinner⟩
      · exact ⟨count, by omega, inner, hplace, h⟩

/-- Of parts one behind the other, each ends before any later one begins. -/
theorem length_flatMap_range_le (parts : Nat → List β) (h : i < j) :
    ((List.range i).flatMap parts).length + (parts i).length ≤
      ((List.range j).flatMap parts).length := by
  induction j, h using Nat.le_induction with
  | base => rw [List.range_succ, List.flatMap_append, List.flatMap_singleton, List.length_append]
  | succ j _ ih =>
      rw [List.range_succ, List.flatMap_append, List.length_append]
      omega

end

/-! ### The invariant -/

variable {style : Style ℚ}

/-- Metrics in which there is room for a box on the line of every alternative. -/
structure Metrics.Roomy (m : Metrics ℚ) : Prop extends m.Nonneg where
  /-- The lines of two alternatives are different, … -/
  choiceSpacing_pos : 0 < m.choiceSpacing
  /-- … and at least a box apart. -/
  boxHeight_le : m.boxHeight ≤ m.choiceSpacing

/-- The default sizes leave room between the lines of a choice. -/
theorem roomy_default : ({} : Metrics ℚ).Roomy where
  toNonneg := nonneg_default
  choiceSpacing_pos := Nat.cast_pos.2 (by decide)
  boxHeight_le := Nat.cast_le.2 (by decide)

/-- Where the boxes of a drawing lie. -/
structure Spread (style : Style ℚ) (node : Node) (cursor : Point ℚ)
    (drawn : List (Primitive ℚ)) : Prop where
  /-- Every box has the height of boxes. -/
  height : ∀ b ∈ boxes drawn, b.height = style.metrics.boxHeight
  /-- Every box is on the line of the node, unless a choice has moved it. -/
  line : ∀ place b, drawn[place]? = some (.box b) →
    b.middle = cursor.y ∨ InChoice style node cursor place
  /-- Two boxes are apart, unless they are across the branches of a choice. -/
  apart : ∀ place place' b b', place < place' → drawn[place]? = some (.box b) →
    drawn[place']? = some (.box b') → b.Apart b' ∨ AcrossBranches style node cursor place place'

variable {node : Node} {cursor middle finish : Point ℚ} {drawn others : List (Primitive ℚ)}

/-- Boxes in a row on the track. -/
theorem Spread.of_row (node : Node)
    (hline : ∀ b ∈ boxes drawn, b.height = style.metrics.boxHeight ∧ b.middle = cursor.y)
    (hapart : (boxes drawn).Pairwise Box.Apart) : Spread style node cursor drawn where
  height b hb := (hline b hb).1
  line _ b hb := .inl (hline b (mem_boxes_of_getElem? hb)).2
  apart place place' b b' hlt hb hb' :=
    .inl (pairwise_boxes_iff.1 hapart place place' b b' hlt hb hb')

/-- Without boxes there is none at any place. -/
theorem not_box_of_boxes_eq_nil {place : Nat} {b : Box ℚ} (h : boxes drawn = []) :
    drawn[place]? ≠ some (.box b) := fun hb =>
  List.not_mem_nil (h ▸ mem_boxes_of_getElem? hb)

/-- What is drawn around a child has no boxes, and the child starts on the same line. -/
theorem Spread.around {parent child : Node} {entry : Point ℚ} {before after : List (Primitive ℚ)}
    (h : Spread style child entry drawn) (hchild : Child style parent cursor before child entry)
    (hentry : entry.y = cursor.y) (hbefore : boxes before = []) (hafter : boxes after = []) :
    Spread style parent cursor (before ++ drawn ++ after) := by
  -- a box of the whole is one of the child, further back by what is drawn before it
  have hinner {place : Nat} {b : Box ℚ} (hb : (before ++ drawn ++ after)[place]? = some (.box b)) :
      ∃ inner, place = before.length + inner ∧ drawn[inner]? = some (.box b) := by
    rcases getElem?_append_cases hb with hb | ⟨k, -, hk⟩
    · exact (getElem?_append_cases hb).resolve_left (not_box_of_boxes_eq_nil hbefore)
    · exact (not_box_of_boxes_eq_nil hafter hk).elim
  refine ⟨fun b hb => h.height b ?_, fun place b hb => ?_, fun place place' b b' hlt hb hb' => ?_⟩
  · simpa only [boxes, List.filterMap_append, hbefore, hafter, List.nil_append, List.append_nil]
      using hb
  · obtain ⟨inner, rfl, hbox⟩ := hinner hb
    rw [← hentry]
    exact (h.line inner b hbox).imp_right (.inside hchild)
  · obtain ⟨inner, rfl, hbox⟩ := hinner hb
    obtain ⟨inner', rfl, hbox'⟩ := hinner hb'
    exact (h.apart inner inner' b b' (by omega) hbox hbox').imp_right (.inside hchild)

/-- An item of a sequence and the items behind it. -/
theorem Spread.append (hmetrics : style.metrics.Nonneg) {item : Node} {items : List Node}
    (hitem : Draws style item cursor drawn middle)
    (hitems : Draws style (.sequence items) middle others finish)
    (h : Spread style item cursor drawn) (h' : Spread style (.sequence items) middle others) :
    Spread style (.sequence (item :: items)) cursor (drawn ++ others) := by
  -- boxes of one part are as they were; of two parts the later one starts behind the earlier one
  have htrack := hitem.onTrack hmetrics
  refine ⟨fun b hb => ?_, fun place b hb => ?_, fun place place' b b' hlt hb hb' => ?_⟩
  · rw [boxes, List.filterMap_append, List.mem_append] at hb
    exact hb.elim (h.height b) (h'.height b)
  · rcases getElem?_append_cases hb with hbox | ⟨inner, rfl, hbox⟩
    · exact (h.line place b hbox).imp_right .of_head
    · rw [← htrack.line]
      exact (h'.line inner b hbox).imp_right (.of_tail hitem)
  · rcases getElem?_append_cases hb with hbox | ⟨inner, rfl, hbox⟩ <;>
      rcases getElem?_append_cases hb' with hbox' | ⟨inner', rfl, hbox'⟩
    · exact (h.apart place place' b b' hlt hbox hbox').imp_right .of_head
    · -- the track runs on between the two
      have hright := htrack.right _ (mem_rights_of_mem_boxes (mem_boxes_of_getElem? hbox))
      have hleft := (hitems.onTrack hmetrics).left b' (mem_boxes_of_getElem? hbox')
      have hspacing := hmetrics.spacing
      exact .inl (Box.apart_of_right_le (by linarith))
    · have hplace := (List.getElem?_eq_some_iff.1 hbox').1
      omega
    · exact (h'.apart inner inner' b b' (by omega) hbox hbox').imp_right (.of_tail hitem)

/-- The lines of two alternatives are no nearer than the metrics say. -/
theorem branchEntry_y_le (hmetrics : style.metrics.Nonneg) (cursor : Point ℚ) (count : Nat)
    {i j : Nat} (h : i < j) :
    (branchEntry style cursor count i).y + style.metrics.choiceSpacing ≤
      (branchEntry style cursor count j).y := by
  have hone : (i : ℚ) + 1 ≤ j := by exact_mod_cast h
  have hle := mul_le_mul_of_nonneg_right hone hmetrics.choiceSpacing
  simp only [branchEntry]
  linarith

/-- Boxes of two alternatives are apart, if both are on the lines of their alternatives. -/
theorem Spread.alternatives_apart {alternatives : List Node} {node node' : Node}
    {entry entry' last last' : Point ℚ} {before before' : List (Primitive ℚ)}
    (h : Spread style node entry drawn) (h' : Spread style node' entry' others)
    (hfirst : Child style (.choice alternatives) cursor before node entry)
    (hsecond : Child style (.choice alternatives) cursor before' node' entry')
    (hlines : entry.y < entry'.y ∧ entry.y + style.metrics.boxHeight ≤ entry'.y)
    (hnode : Draws style node entry drawn last) (hnode' : Draws style node' entry' others last')
    {place place' : Nat} {b b' : Box ℚ} (hb : drawn[place]? = some (.box b))
    (hb' : others[place']? = some (.box b')) :
    b.Apart b' ∨ AcrossBranches style (.choice alternatives) cursor (before.length + place)
      (before'.length + place') := by
  obtain rfl : drawn = (sketch style node entry).drawn := by rw [hnode.sketch_eq]
  obtain rfl : others = (sketch style node' entry').drawn := by rw [hnode'.sketch_eq]
  have hacross := AcrossBranches.here hfirst hsecond hlines.1 (List.getElem?_eq_some_iff.1 hb).1
    (List.getElem?_eq_some_iff.1 hb').1
  -- two boxes on their lines are apart; otherwise one of the two has been moved by a choice
  -- inside
  by_cases hline : b.middle = entry.y
  · by_cases hline' : b'.middle = entry'.y
    · have hheight := h.height b (mem_boxes_of_getElem? hb)
      have hheight' := h'.height b' (mem_boxes_of_getElem? hb')
      exact .inl (Box.apart_of_middle hheight hheight' (by linarith [hlines.2]))
    · have hmoved := (h'.line place' b' hb').resolve_left hline'
      exact .inr (hacross (.inr ⟨b', hb', hline', hmoved⟩))
  · have hmoved := (h.line place b hb).resolve_left hline
    exact .inr (hacross (.inl ⟨b, hb, hline, hmoved⟩))

/-- The alternatives of a choice, each from its own line, and what joins them. -/
theorem Spread.choice (hmetrics : style.metrics.Roomy) {alternatives : List Node}
    {parts : Nat → List (Primitive ℚ)} {ends : Nat → Point ℚ} {joins : List (Primitive ℚ)}
    (hchoice : Draws style (.choice alternatives) cursor
      ((List.range alternatives.length).flatMap parts ++ joins) finish) (hjoins : boxes joins = [])
    (hparts : ∀ i node, alternatives[i]? = some node →
      Draws style node (branchEntry style cursor alternatives.length i) (parts i) (ends i))
    (h : ∀ i node, alternatives[i]? = some node →
      Spread style node (branchEntry style cursor alternatives.length i) (parts i)) :
    Spread style (.choice alternatives) cursor
      ((List.range alternatives.length).flatMap parts ++ joins) := by
  -- a box of the choice is one of an alternative, since connections are no boxes
  have hpart {place : Nat} {b : Box ℚ}
      (hb : ((List.range alternatives.length).flatMap parts ++ joins)[place]? = some (.box b)) :
      ∃ i node, alternatives[i]? = some node ∧ ∃ inner,
        place = ((List.range i).flatMap parts).length + inner ∧
          (parts i)[inner]? = some (.box b) := by
    rcases getElem?_append_cases hb with hb | ⟨k, -, hk⟩
    · obtain ⟨i, hi, hinner⟩ := getElem?_flatMap_range hb
      exact ⟨i, _, List.getElem?_eq_getElem hi, hinner⟩
    · exact (not_box_of_boxes_eq_nil hjoins hk).elim
  refine ⟨fun b hb => ?_, fun _ b hb => .inr (.here ?_),
    fun place place' b b' hlt hb hb' => ?_⟩
  · obtain ⟨place, hplace⟩ := List.mem_iff_getElem?.1 (mem_boxes.1 hb)
    obtain ⟨i, node, hi, inner, -, hbox⟩ := hpart hplace
    exact (h i node hi).height b (mem_boxes_of_getElem? hbox)
  · rw [hchoice.sketch_eq]
    exact (List.getElem?_eq_some_iff.1 hb).1
  · obtain ⟨i, node, hi, inner, rfl, hbox⟩ := hpart hb
    obtain ⟨j, node', hj, inner', rfl, hbox'⟩ := hpart hb'
    have hfirst := Child.of_getElem? hparts hi
    have hsecond := Child.of_getElem? hparts hj
    -- in two alternatives, the earlier one above the later one, or in one and the same
    rcases Nat.lt_trichotomy i j with hij | rfl | hji
    · have hlines := branchEntry_y_le hmetrics.toNonneg cursor alternatives.length hij
      have hroom := hmetrics.boxHeight_le
      have hpos := hmetrics.choiceSpacing_pos
      exact (h i node hi).alternatives_apart (h j node' hj) hfirst hsecond
        ⟨by linarith, by linarith⟩ (hparts i node hi) (hparts j node' hj) hbox hbox'
    · obtain rfl := Option.some.inj (hi.symm.trans hj)
      exact ((h i node hi).apart inner inner' b b' (by omega) hbox hbox').imp_right (.inside hfirst)
    · have hle := length_flatMap_range_le parts hji
      have hinner' := (List.getElem?_eq_some_iff.1 hbox').1
      omega

/-- The boxes of a class are apart. -/
theorem pairwise_itemBoxes (h : style.metrics.Nonneg) (labels : List String) (cursor : Point ℚ) :
    (boxes (itemBoxes style cursor labels)).Pairwise Box.Apart := by
  induction labels generalizing cursor with
  | nil => exact .nil
  | cons label labels ih =>
      refine List.pairwise_cons.2 ⟨fun b hb => Box.apart_of_right_le ?_, ih _⟩
      have hleft := (itemBoxes_within h hb).1
      have hgap := h.classItemGap
      simp only [Point.withX] at hleft ⊢
      linarith

/-- A box has the line it is drawn on in its middle. -/
theorem middle_of_eq_boxAt {b : Box ℚ} {width : ℚ} {label fill stroke : String}
    (h : .box b = boxAt style cursor width label fill stroke) :
    b.height = style.metrics.boxHeight ∧ b.middle = cursor.y := by
  obtain rfl := Primitive.box.inj h
  exact ⟨rfl, sub_add_cancel _ _⟩

/-- **Boxes are apart, or in two alternatives of a choice with one of them displaced.** -/
theorem Draws.spread (h : style.metrics.Roomy) (hdraws : Draws style node cursor drawn finish) :
    Spread style node cursor drawn := by
  induction hdraws with
  -- rows lie on their line; everything else is around a part, behind one, or beside one
  | terminal look cursor =>
      refine .of_row _ (fun b hb => ?_) (List.pairwise_singleton _ _)
      exact middle_of_eq_boxAt (List.mem_singleton.1 (mem_boxes.1 hb))
  | charClass items negated cursor =>
      refine .of_row _ (fun b hb => ?_) ?_
      · rw [boxes, filterMap_caption_cons] at hb
        obtain ⟨x, label, heq⟩ := mem_itemBoxes (mem_boxes.1 hb)
        simpa only [Point.withX] using middle_of_eq_boxAt heq
      · rw [boxes, filterMap_caption_cons]
        exact pairwise_itemBoxes h.toNonneg _ cursor
  | nil cursor => exact .of_row _ (List.forall_mem_nil _) .nil
  | cons hitem hitems ihItem ihItems => exact .append h.toNonneg hitem hitems ihItem ihItems
  | choice parts ends hparts ih =>
      exact .choice h (.choice parts ends hparts) (by simp) hparts ih
  | optional _ ih => exact ih.around (.optional _ _) rfl rfl (by simp)
  | zeroOrMore _ ih => exact ih.around (.zeroOrMore _ _) rfl rfl (by simp)
  | oneOrMore _ ih => exact ih.around (.oneOrMore _ _) rfl rfl (by simp)
  | counted quantifier _ ih =>
      rw [← List.append_nil (_ :: _)]
      exact ih.around (.counted _ quantifier _) rfl (by simp) rfl
  | group kind _ ih => exact ih.around (.group _ kind _) rfl (by simp) rfl
  | empty cursor => exact .of_row _ (List.forall_mem_nil _) .nil

/-! ### Choices inside choices -/

/-- No more choices are inside each other in a child than in its parent, and fewer are in
an alternative of a choice. -/
theorem Child.choiceDepth_le {parent child : Node} {entry : Point ℚ} {before : List (Primitive ℚ)}
    (h : Child style parent cursor before child entry) :
    child.choiceDepth ≤ parent.choiceDepth := by
  cases h with
  | item front back hfront => exact Node.choiceDepth_le_of_mem (by simp)
  | alternative front back node cursor =>
      exact (Node.choiceDepth_le_of_mem (by simp)).trans (Nat.le_succ _)
  | optional item cursor => exact le_rfl
  | zeroOrMore item cursor => exact le_rfl
  | oneOrMore item cursor => exact le_rfl
  | counted item quantifier cursor => exact le_rfl
  | group content kind cursor => exact le_rfl

/-- An alternative is less deep in choices than the choice. -/
theorem Child.choiceDepth_lt {alternatives : List Node} {child : Node} {entry : Point ℚ}
    {before : List (Primitive ℚ)}
    (h : Child style (.choice alternatives) cursor before child entry) :
    child.choiceDepth < (Node.choice alternatives).choiceDepth := by
  cases h with
  | alternative front back node cursor =>
      exact Nat.lt_succ_of_le (Node.choiceDepth_le_of_mem (by simp))

/-- Only in a tree with a choice is anything in a choice. -/
theorem InChoice.choiceDepth_pos {place : Nat} (h : InChoice style node cursor place) :
    0 < node.choiceDepth := by
  induction h with
  | here hplace => exact Nat.succ_pos _
  | inside hchild _ ih => exact ih.trans_le hchild.choiceDepth_le

/-- Only in a tree with a choice inside a choice has anything been moved off its line. -/
theorem AcrossBranches.one_lt_choiceDepth {place place' : Nat}
    (h : AcrossBranches style node cursor place place') : 1 < node.choiceDepth := by
  induction h with
  | here hfirst hsecond _ _ _ hmoved =>
      rcases hmoved with ⟨_, _, _, hin⟩ | ⟨_, _, _, hin⟩
      · exact (Nat.succ_le_of_lt hin.choiceDepth_pos).trans_lt hfirst.choiceDepth_lt
      · exact (Nat.succ_le_of_lt hin.choiceDepth_pos).trans_lt hsecond.choiceDepth_lt
  | inside hchild _ ih => exact ih.trans_le hchild.choiceDepth_le

/-- **Boxes lie on top of each other only across the branches of a choice.**  In the
diagram of a pattern, two boxes are apart unless they are in two alternatives of one
choice and a choice inside an alternative has moved one of them off the line of that
alternative.  So where no choice is inside another, no two boxes lie on top of each
other.

This is over exact numbers.  With every addition rounded it would not hold of all patterns:
neighbouring boxes are some twenty apart, along the track or between its lines, and a gap is
lost, or boxes are pushed into each other, once the coordinates that it is added to have no
digits left for it, as doubles have none from about 2⁵³ times the gap on.  A pattern that is
drawn so far out is astronomically long. -/
theorem apart_or_acrossBranches {pattern : String} {tree : Node} (h : parse pattern = .ok tree) :
    ∃ drawing, diagram ({} : Style ℚ) tree = .ok drawing ∧
      (∀ (place place' : Nat) (b b' : Box ℚ), place < place' →
        drawing.primitives[place]? = some (.box b) →
        drawing.primitives[place']? = some (.box b') →
          b.Apart b' ∨ AcrossBranches ({} : Style ℚ) tree (origin {}) place place') ∧
      (tree.choiceDepth ≤ 1 → (boxes drawing.primitives).Pairwise Box.Apart) := by
  obtain ⟨drawn, finish, hdraws⟩ := exists_draws ({} : Style ℚ) (proper_of_parse h) (origin {})
  have hspread := hdraws.spread roomy_default
  refine ⟨.of drawn, hdraws.diagram_eq, hspread.apart, fun hdepth => ?_⟩
  refine pairwise_boxes_iff.2 fun place place' b b' hlt hb hb' => ?_
  refine (hspread.apart place place' b b' hlt hb hb').resolve_right fun hacross => ?_
  exact hdepth.not_gt hacross.one_lt_choiceDepth

/-- The hypothesis of `apart_or_acrossBranches` is satisfiable: a pattern with one choice,
in a loop between other items. -/
theorem apart_or_acrossBranches_flat :
    ∃ tree drawing, parse "x(a|bc)*[d-f]" = .ok tree ∧
      diagram ({} : Style ℚ) tree = .ok drawing ∧
      (boxes drawing.primitives).Pairwise Box.Apart := by
  have hparse : parse "x(a|bc)*[d-f]" = .ok (.sequence [.literal "x",
      .zeroOrMore (.group (.choice [.literal "a", .sequence [.literal "b", .literal "c"]])
        .capturing),
      .charClass [.range "d" "f"] false]) := by decide +kernel
  obtain ⟨drawing, hdrawing, -, hapart⟩ := apart_or_acrossBranches hparse
  exact ⟨_, drawing, hparse, hdrawing, hapart (by decide)⟩

end Layout
end Railroad
