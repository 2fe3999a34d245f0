/-
# Drawing as a relation

`Draws style node cursor drawn finish` says that a node draws `drawn` when it starts
at `cursor`, and that the next node starts at `finish`.  There is one rule for each
way in which a drawing is put together:

| node | what is drawn | where it ends |
| --- | --- | --- |
| terminal, class | its boxes, and the caption of a class | behind them |
| sequence | the first item and the sequence of the others | where that sequence ends |
| choice | every alternative from its own entry, then all connectors | behind the exit |
| optional | the item, moved along, and a bypass | where the item ends |
| zero or more | the item, moved along, a bypass and a loop | where the item ends |
| one or more | the item and a loop | where the item ends |
| counted | a caption and the item | where the item ends |
| group | a caption, the content and a frame | behind the frame |
| empty | nothing | where it starts |

The relation says the same as the function (`Draws.sketch_eq`), and every proper tree
draws something from everywhere (`exists_draws`).  What holds of all drawings is
proved by induction on the relation, with a case for each rule.
-/

import Mathlib.Tactic.Choose
import Railroad.Layout.Draw
import Railroad.Proofs.Pattern.Strays

namespace Railroad
namespace Layout

open Pattern Drawing

variable {α : Type} [Scalar α]

/-! ### The rules -/

/-- The nodes that are drawn as a single box, with the label and the colours of the
box. -/
inductive IsTerminal (palette : Palette) : Node → (label fill stroke : String) → Prop where
  | literal (text : String) :
      IsTerminal palette (.literal text) (literalLabel text) palette.literal palette.literalStroke
  | escape (text : String) :
      IsTerminal palette (.escape text) (escapeLabel text) palette.escape palette.escapeStroke
  | anyChar : IsTerminal palette .anyChar "any character" palette.escape palette.escapeStroke
  | anchorStart :
      IsTerminal palette .anchorStart "start of line" palette.anchor palette.anchorStroke
  | anchorEnd : IsTerminal palette .anchorEnd "end of line" palette.anchor palette.anchorStroke

section

variable (style : Style α)

/-- The caption of a character class, over the middle of the class. -/
def classCaptionAt (items : List ClassItem) (negated : Bool) (cursor : Point α) : Caption α where
  x := cursor.x + classWidth style (classCaption negated) (items.map itemLabel) / (2 : Nat)
  y := cursor.y - style.metrics.classCaptionOffset
  text := classCaption negated
  fontSize := style.metrics.captionSize
  anchor := .middle
  fill := style.palette.text

/-- The branches of a choice of `count` alternatives, the one of index `i` ending at
`finish i`. -/
def branchesTo (cursor : Point α) (count : Nat) (finish : Nat → Point α) : List (Branch α) :=
  (List.range count).map fun i => ⟨branchEntry style cursor count i, (finish i).x⟩

/-- The frame with the given bounds. -/
def frameWith (bounds : Bounds α) : Frame α where
  x := bounds.minX
  y := bounds.minY
  width := bounds.width
  height := bounds.height
  stroke := style.palette.groupStroke
  strokeWidth := style.metrics.lineWidth

/-- How a node is drawn, by the rules of the table above. -/
inductive Draws : Node → Point α → List (Primitive α) → Point α → Prop where
  | terminal {node : Node} {label fill stroke : String}
      (look : IsTerminal style.palette node label fill stroke) (cursor : Point α) :
      Draws node cursor
        [boxAt style cursor (boxWidth style.metrics label) label fill stroke]
        (cursor.withX (cursor.x + boxWidth style.metrics label + style.metrics.spacing))
  | charClass (items : List ClassItem) (negated : Bool) (cursor : Point α) :
      Draws (.charClass items negated) cursor
        (.caption (classCaptionAt style items negated cursor) ::
          itemBoxes style cursor (items.map itemLabel))
        (cursor.withX (cursor.x +
          classWidth style (classCaption negated) (items.map itemLabel) + style.metrics.spacing))
  | nil (cursor : Point α) : Draws (.sequence []) cursor [] cursor
  | cons {item : Node} {items : List Node} {cursor middle finish : Point α}
      {drawn others : List (Primitive α)} :
      Draws item cursor drawn middle → Draws (.sequence items) middle others finish →
        Draws (.sequence (item :: items)) cursor (drawn ++ others) finish
  | choice {alternatives : List Node} {cursor : Point α} (drawn : Nat → List (Primitive α))
      (finish : Nat → Point α) :
      (∀ i node, alternatives[i]? = some node →
        Draws node (branchEntry style cursor alternatives.length i) (drawn i) (finish i)) →
      Draws (.choice alternatives) cursor
        ((List.range alternatives.length).flatMap drawn ++
          (branchesTo style cursor alternatives.length finish).flatMap (connectors style cursor
            (exitX cursor (branchesTo style cursor alternatives.length finish))))
        (cursor.withX (exitX cursor (branchesTo style cursor alternatives.length finish) +
          style.metrics.spacing))
  | optional {item : Node} {cursor finish : Point α} {drawn : List (Primitive α)} :
      Draws item (cursor.withX (cursor.x + style.metrics.branchOffset)) drawn finish →
        Draws (.optional item) cursor
          (drawn ++ [bypass style cursor.x finish.x cursor.y]) finish
  | zeroOrMore {item : Node} {cursor finish : Point α} {drawn : List (Primitive α)} :
      Draws item (cursor.withX (cursor.x + style.metrics.branchOffset)) drawn finish →
        Draws (.zeroOrMore item) cursor
          (drawn ++ bypass style cursor.x finish.x cursor.y ::
            loop style (cursor.x + style.metrics.branchOffset) finish.x cursor.y) finish
  | oneOrMore {item : Node} {cursor finish : Point α} {drawn : List (Primitive α)} :
      Draws item cursor drawn finish →
        Draws (.oneOrMore item) cursor (drawn ++ loop style cursor.x finish.x cursor.y) finish
  | counted {item : Node} {cursor finish : Point α} {drawn : List (Primitive α)}
      (quantifier : String) :
      Draws item cursor drawn finish →
        Draws (.counted item quantifier) cursor
          (countCaption style quantifier cursor :: drawn) finish
  | group {content : Node} {cursor finish : Point α} {drawn : List (Primitive α)}
      (kind : GroupKind) :
      Draws content (contentStart style cursor) drawn finish →
        Draws (.group content kind) cursor
          (captionOf style kind cursor ++ drawn ++ [.frame (frameWith style
            (frameBounds style (captionOf style kind cursor ++ drawn) cursor finish))])
          (cursor.withX ((frameBounds style (captionOf style kind cursor ++ drawn) cursor
            finish).maxX + style.metrics.spacing))
  | empty (cursor : Point α) : Draws .empty cursor [] cursor

end

variable {style : Style α}

/-! ### The relation says what the function does -/

/-- The alternatives of a choice from the index `first` on, if each of them is drawn. -/
theorem sketchBranches_eq {alternatives : List Node} {cursor : Point α} {count : Nat}
    (drawn : Nat → List (Primitive α)) (finish : Nat → Point α) (first : Nat)
    (h : ∀ i node, alternatives[i]? = some node →
      sketch style node (branchEntry style cursor count (first + i)) =
        ⟨drawn (first + i), .ok (finish (first + i))⟩) :
    sketchBranches style cursor count first alternatives =
      ⟨(List.range' first alternatives.length).flatMap drawn,
        .ok ((List.range' first alternatives.length).map fun i =>
          ⟨branchEntry style cursor count i, (finish i).x⟩)⟩ := by
  induction alternatives generalizing first with
  | nil => rfl
  | cons node alternatives ih =>
      have hfirst := h 0 node rfl
      -- the other alternatives start from the next index
      have hrest := ih (first + 1) fun i other hi => by
        rw [Nat.add_assoc, Nat.add_comm 1 i]
        exact h (i + 1) other hi
      rw [sketchBranches, Nat.add_zero] at *
      rw [hfirst, Sketch.bind_ok, hrest, Sketch.bind_ok, List.length_cons, List.range'_succ,
        List.flatMap_cons, List.map_cons, Sketch.pure_eq, List.append_nil]

/-- A terminal is drawn as one box with its label. -/
theorem IsTerminal.sketch_eq {node : Node} {label fill stroke : String}
    (look : IsTerminal style.palette node label fill stroke) (cursor : Point α) :
    sketch style node cursor = terminal style label fill stroke cursor := by
  cases look <;> rw [sketch]

/-- **What the rules say is drawn is what is drawn.** -/
theorem Draws.sketch_eq {node : Node} {cursor finish : Point α} {drawn : List (Primitive α)}
    (h : Draws style node cursor drawn finish) :
    sketch style node cursor = ⟨drawn, .ok finish⟩ := by
  induction h with
  | terminal look cursor => rw [look.sketch_eq]; rfl
  | charClass items negated cursor =>
      rw [sketch, classSketch]
      simp only [Sketch.draw, Sketch.bind_ok, Sketch.pure_eq, List.append_nil]
      rfl
  | nil cursor => rw [sketch, sketchItems]; rfl
  | cons _ _ ihItem ihItems =>
      rw [sketch] at ihItems ⊢
      rw [sketchItems, ihItem, Sketch.bind_ok, ihItems]
  -- the alternatives first, each from its own entry, and the connections behind all of them
  | choice drawn finish _ ih =>
      have hall := sketchBranches_eq drawn finish 0 fun i node hi => by
        rw [Nat.zero_add]
        exact ih i node hi
      rw [sketch, hall, ← List.range_eq_range', Sketch.bind_ok, joined]
      simp only [Sketch.draw, Sketch.bind_ok, Sketch.pure_eq, List.append_nil]
      rfl
  | optional _ ih => rw [sketch, ih]; rfl
  | zeroOrMore _ ih => rw [sketch, ih]; rfl
  | oneOrMore _ ih => rw [sketch, ih]; rfl
  | counted quantifier _ ih => rw [sketch, ih]; rfl
  | group kind _ ih => rw [sketch, ih]; rfl
  | empty cursor => rw [sketch]; rfl

/-- A node draws one thing from one cursor. -/
theorem Draws.unique {node : Node} {cursor finish finish' : Point α}
    {drawn drawn' : List (Primitive α)} (h : Draws style node cursor drawn finish)
    (h' : Draws style node cursor drawn' finish') : drawn = drawn' ∧ finish = finish' := by
  have heq := h.sketch_eq.symm.trans h'.sketch_eq
  injection heq with hdrawn hfinish
  exact ⟨hdrawn, Except.ok.inj hfinish⟩

/-- A tree that is drawn from the origin has a diagram. -/
theorem Draws.diagram_eq {node : Node} {finish : Point α} {drawn : List (Primitive α)}
    (h : Draws style node (origin style) drawn finish) : diagram style node = .ok (.of drawn) := by
  rw [diagram, h.sketch_eq]
  rfl

/-! ### Proper trees are drawn -/

/-- A sequence is drawn if its items are, wherever they start. -/
theorem exists_draws_sequence {items : List Node}
    (h : ∀ item ∈ items, ∀ cursor, ∃ drawn finish, Draws style item cursor drawn finish)
    (cursor : Point α) : ∃ drawn finish, Draws style (.sequence items) cursor drawn finish := by
  induction items generalizing cursor with
  | nil => exact ⟨_, _, .nil cursor⟩
  | cons item items ih =>
      obtain ⟨drawn, middle, hitem⟩ := h item (List.mem_cons_self ..) cursor
      obtain ⟨others, finish, hitems⟩ :=
        ih (fun other ho => h other (List.mem_cons_of_mem _ ho)) middle
      exact ⟨_, _, .cons hitem hitems⟩

/-- What there is for every alternative of a choice there is for all of them at once, as
functions of the index. -/
theorem exists_forall_getElem? {β γ : Type} {nodes : List Node} (b : β) (c : γ)
    {rel : Nat → Node → β → γ → Prop}
    (h : ∀ i node, nodes[i]? = some node → ∃ b c, rel i node b c) :
    ∃ (f : Nat → β) (g : Nat → γ), ∀ i node, nodes[i]? = some node → rel i node (f i) (g i) := by
  have hindex (i : Nat) : ∃ b c, ∀ node, nodes[i]? = some node → rel i node b c := by
    cases hi : nodes[i]? with
    | none => exact ⟨b, c, fun node hnode => by cases hnode⟩
    | some node =>
        obtain ⟨b', c', hrel⟩ := h i node hi
        exact ⟨b', c', fun other hother => Option.some.inj hother ▸ hrel⟩
  choose f g hrel using hindex
  exact ⟨f, g, hrel⟩

/-- A choice is drawn if its alternatives are, wherever they start. -/
theorem exists_draws_choice {alternatives : List Node}
    (h : ∀ node ∈ alternatives, ∀ cursor, ∃ drawn finish, Draws style node cursor drawn finish)
    (cursor : Point α) :
    ∃ drawn finish, Draws style (.choice alternatives) cursor drawn finish := by
  obtain ⟨drawn, finish, hdraws⟩ := exists_forall_getElem? [] cursor fun i node hi =>
    h node (List.mem_of_getElem? hi) (branchEntry style cursor alternatives.length i)
  exact ⟨_, _, .choice drawn finish hdraws⟩

mutual

/-- **A proper tree is drawn**, wherever it starts. -/
theorem exists_draws (style : Style α) : ∀ {node : Node}, node.Proper → ∀ cursor : Point α,
    ∃ drawn finish, Draws style node cursor drawn finish
  -- by recursion on the tree; every constructor but the last has a rule
  | .literal text, _, cursor => ⟨_, _, .terminal (.literal text) cursor⟩
  | .escape text, _, cursor => ⟨_, _, .terminal (.escape text) cursor⟩
  | .anyChar, _, cursor => ⟨_, _, .terminal .anyChar cursor⟩
  | .anchorStart, _, cursor => ⟨_, _, .terminal .anchorStart cursor⟩
  | .anchorEnd, _, cursor => ⟨_, _, .terminal .anchorEnd cursor⟩
  | .charClass items negated, _, cursor => ⟨_, _, .charClass items negated cursor⟩
  | .sequence _, h, cursor =>
      exists_draws_sequence (exists_draws_all style (Node.proper_sequence_iff.1 h)) cursor
  | .choice _, h, cursor =>
      exists_draws_choice (exists_draws_all style (Node.proper_choice_iff.1 h)) cursor
  | .optional item, h, cursor => by
      obtain ⟨drawn, finish, hitem⟩ := exists_draws style (Node.proper_optional_iff.1 h)
        (cursor.withX (cursor.x + style.metrics.branchOffset))
      exact ⟨_, _, .optional hitem⟩
  | .zeroOrMore item, h, cursor => by
      obtain ⟨drawn, finish, hitem⟩ := exists_draws style (Node.proper_zeroOrMore_iff.1 h)
        (cursor.withX (cursor.x + style.metrics.branchOffset))
      exact ⟨_, _, .zeroOrMore hitem⟩
  | .oneOrMore item, h, cursor => by
      obtain ⟨drawn, finish, hitem⟩ := exists_draws style (Node.proper_oneOrMore_iff.1 h) cursor
      exact ⟨_, _, .oneOrMore hitem⟩
  | .counted item quantifier, h, cursor => by
      obtain ⟨drawn, finish, hitem⟩ := exists_draws style (Node.proper_counted_iff.1 h) cursor
      exact ⟨_, _, .counted quantifier hitem⟩
  | .group content kind, h, cursor => by
      obtain ⟨drawn, finish, hcontent⟩ := exists_draws style (Node.proper_group_iff.1 h)
        (contentStart style cursor)
      exact ⟨_, _, .group kind hcontent⟩
  | .empty, _, cursor => ⟨_, _, .empty cursor⟩
  | .stray object, h, _ => absurd h (Node.not_proper_stray object)

/-- Every node of some proper ones is drawn, from any cursor. -/
theorem exists_draws_all (style : Style α) : ∀ {nodes : List Node}, (∀ node ∈ nodes, node.Proper) →
    ∀ node ∈ nodes, ∀ cursor : Point α, ∃ drawn finish, Draws style node cursor drawn finish
  | [], _ => fun _ hmem => absurd hmem List.not_mem_nil
  | node :: _, h =>
      List.forall_mem_cons.2 ⟨exists_draws style (h node (List.mem_cons_self ..)),
        exists_draws_all style fun other ho => h other (List.mem_cons_of_mem _ ho)⟩

end

end Layout
end Railroad
