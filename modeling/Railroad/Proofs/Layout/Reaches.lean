/-
# Where the parts of a tree are drawn

`Child style parent cursor before node entry` says that a node is drawn from `entry`
as a child of `parent`, which starts at `cursor` and has drawn `before` by then.  There
is one rule for each place below a node.  `Reaches style root start before node cursor`
says the same of a node any number of levels below `root`, or of `root` itself.

What a node draws is a stretch of what its parent draws, right behind `before`
(`Child.draws`), and so of what the root draws (`Reaches.draws`).  Every node of a proper
tree is reached (`exists_reaches`).
-/

import Mathlib.Logic.Relation
import Railroad.Proofs.Layout.Draws

namespace Railroad
namespace Layout

open Pattern Drawing

variable {α : Type} [Scalar α]

section

variable (style : Style α)

/-- Where the children of a node are drawn, and behind what. -/
inductive Child : Node → Point α → List (Primitive α) → Node → Point α → Prop where
  | item (front back : List Node) {item : Node} {cursor middle : Point α}
      {drawn : List (Primitive α)} :
      sketch style (.sequence front) cursor = ⟨drawn, .ok middle⟩ →
        Child (.sequence (front ++ item :: back)) cursor drawn item middle
  | alternative (front back : List Node) (node : Node) (cursor : Point α) :
      Child (.choice (front ++ node :: back)) cursor
        (sketchBranches style cursor (front ++ node :: back).length 0 front).drawn node
        (branchEntry style cursor (front ++ node :: back).length front.length)
  | optional (item : Node) (cursor : Point α) :
      Child (.optional item) cursor [] item
        (cursor.withX (cursor.x + style.metrics.branchOffset))
  | zeroOrMore (item : Node) (cursor : Point α) :
      Child (.zeroOrMore item) cursor [] item
        (cursor.withX (cursor.x + style.metrics.branchOffset))
  | oneOrMore (item : Node) (cursor : Point α) : Child (.oneOrMore item) cursor [] item cursor
  | counted (item : Node) (quantifier : String) (cursor : Point α) :
      Child (.counted item quantifier) cursor [countCaption style quantifier cursor] item cursor
  | group (content : Node) (kind : GroupKind) (cursor : Point α) :
      Child (.group content kind) cursor (captionOf style kind cursor) content
        (contentStart style cursor)

/-- Where the nodes of a tree are drawn, and behind what. -/
inductive Reaches (root : Node) (start : Point α) :
    List (Primitive α) → Node → Point α → Prop where
  | root : Reaches root start [] root start
  | child {before more : List (Primitive α)} {parent node : Node} {cursor entry : Point α} :
      Reaches root start before parent cursor → Child style parent cursor more node entry →
        Reaches root start (before ++ more) node entry

end

/-- Whether a node is a tree itself or stands anywhere below it. -/
def Below (root : Node) : Node → Prop :=
  Relation.ReflTransGen (fun parent child => child ∈ parent.children) root

variable {style : Style α} {root : Node} {start : Point α}

/-! ### A child -/

/-- A sequence is drawn by drawing its first item and then the others. -/
theorem Draws.of_cons {item : Node} {items : List Node} {cursor finish : Point α}
    {drawn : List (Primitive α)}
    (h : Draws style (.sequence (item :: items)) cursor drawn finish) :
    ∃ first middle second, Draws style item cursor first middle ∧
      Draws style (.sequence items) middle second finish ∧ drawn = first ++ second := by
  cases h with
  | terminal look => cases look
  | cons hitem hitems => exact ⟨_, _, _, hitem, hitems, rfl⟩

/-- A sequence is drawn by drawing a front of it and then the rest. -/
theorem Draws.sequence_append {front back : List Node} {cursor finish : Point α}
    {drawn : List (Primitive α)} (h : Draws style (.sequence (front ++ back)) cursor drawn finish) :
    ∃ first middle second, Draws style (.sequence front) cursor first middle ∧
      Draws style (.sequence back) middle second finish ∧ drawn = first ++ second := by
  induction front generalizing cursor drawn with
  | nil => exact ⟨[], cursor, drawn, .nil cursor, h, rfl⟩
  | cons item front ih =>
      obtain ⟨inside, entry, others, hitem, hrest, rfl⟩ := h.of_cons
      obtain ⟨first, middle, second, hfront, hback, rfl⟩ := ih hrest
      exact ⟨_, middle, second, .cons hitem hfront, hback, (List.append_assoc ..).symm⟩

/-- Two drawings one behind the other are the drawing of both as one sequence. -/
theorem Draws.append {front back : List Node} {cursor middle finish : Point α}
    {drawn others : List (Primitive α)} (hfront : Draws style (.sequence front) cursor drawn middle)
    (hback : Draws style (.sequence back) middle others finish) :
    Draws style (.sequence (front ++ back)) cursor (drawn ++ others) finish := by
  induction front generalizing cursor drawn with
  | nil =>
      cases hfront with
      | terminal look => cases look
      | nil => exact hback
  | cons item front ih =>
      obtain ⟨inside, entry, rest, hitem, hrest, rfl⟩ := hfront.of_cons
      rw [List.append_assoc]
      exact .cons hitem (ih hrest)

/-- An item of a sequence is drawn behind what the items in front of it draw. -/
theorem Draws.item {front back : List Node} {item : Node} {cursor middle finish : Point α}
    {before drawn : List (Primitive α)}
    (h : Draws style (.sequence (front ++ item :: back)) cursor drawn finish)
    (hfront : sketch style (.sequence front) cursor = ⟨before, .ok middle⟩) :
    ∃ inside last after, Draws style item middle inside last ∧
      drawn = before ++ inside ++ after := by
  obtain ⟨first, entry, second, hfirst, hback, rfl⟩ := h.sequence_append
  obtain ⟨rfl, hentry⟩ := Sketch.mk.inj (hfirst.sketch_eq.symm.trans hfront)
  obtain rfl := Except.ok.inj hentry
  obtain ⟨inside, last, others, hitem, -, rfl⟩ := hback.of_cons
  exact ⟨inside, last, others, hitem, (List.append_assoc ..).symm⟩

/-- The places of a list, parted at one of them. -/
theorem range_length_append_cons {β : Type} (front : List β) (x : β) (back : List β) :
    List.range (front ++ x :: back).length =
      List.range front.length ++ front.length :: List.range' (front.length + 1) back.length := by
  rw [List.length_append, List.length_cons, List.range_eq_range', List.range_eq_range',
    ← List.range'_append_1, Nat.zero_add, List.range'_succ]

/-- What the first alternatives of a choice draw. -/
theorem sketchBranches_front {front : List Node} (back : List Node) {cursor : Point α} {count : Nat}
    {drawn : Nat → List (Primitive α)} {finish : Nat → Point α}
    (hparts : ∀ i node, (front ++ back)[i]? = some node →
      Draws style node (branchEntry style cursor count i) (drawn i) (finish i)) :
    (sketchBranches style cursor count 0 front).drawn =
      (List.range front.length).flatMap drawn := by
  rw [sketchBranches_eq drawn finish 0 fun i node hi => ?_, ← List.range_eq_range']
  rw [Nat.zero_add]
  refine (hparts i node ?_).sketch_eq
  rw [List.getElem?_append_left (List.getElem?_eq_some_iff.1 hi).1, hi]

/-- An alternative of a choice is drawn behind what the alternatives in front of it
draw. -/
theorem Draws.alternative {front back : List Node} {node : Node} {cursor finish : Point α}
    {drawn : List (Primitive α)}
    (h : Draws style (.choice (front ++ node :: back)) cursor drawn finish) :
    ∃ inside last after,
      Draws style node (branchEntry style cursor (front ++ node :: back).length front.length)
        inside last ∧
      drawn = (sketchBranches style cursor (front ++ node :: back).length 0 front).drawn ++
        inside ++ after := by
  cases h with
  | terminal look => cases look
  | choice parts ends hparts =>
      -- what is drawn, parted at the alternative; the connections are behind all of it
      have hsplit (joins : List (Primitive α)) :
          (List.range (front ++ node :: back).length).flatMap parts ++ joins =
            (List.range front.length).flatMap parts ++ parts front.length ++
              ((List.range' (front.length + 1) back.length).flatMap parts ++ joins) := by
        rw [range_length_append_cons, List.flatMap_append, List.flatMap_cons]
        simp only [List.append_assoc]
      rw [sketchBranches_front _ hparts]
      exact ⟨_, _, _, hparts front.length node (by simp), hsplit _⟩

/-- An alternative of a choice is a child of it, behind what the alternatives in front of
it draw. -/
theorem Child.of_getElem? {alternatives : List Node} {cursor : Point α}
    {drawn : Nat → List (Primitive α)} {finish : Nat → Point α}
    (hparts : ∀ i node, alternatives[i]? = some node →
      Draws style node (branchEntry style cursor alternatives.length i) (drawn i) (finish i))
    {i : Nat} {node : Node} (hi : alternatives[i]? = some node) :
    Child style (.choice alternatives) cursor ((List.range i).flatMap drawn) node
      (branchEntry style cursor alternatives.length i) := by
  obtain ⟨hlt, hnode⟩ := List.getElem?_eq_some_iff.1 hi
  obtain ⟨front, back, rfl, rfl⟩ :
      ∃ front back, alternatives = front ++ node :: back ∧ i = front.length :=
    ⟨alternatives.take i, alternatives.drop (i + 1),
      by rw [← hnode, ← List.drop_eq_getElem_cons hlt, List.take_append_drop],
      (List.length_take_of_le hlt.le).symm⟩
  rw [← sketchBranches_front _ hparts]
  exact .alternative front back node cursor

/-- **A child draws a stretch of what its parent draws.** -/
theorem Child.draws {parent node : Node} {cursor entry finish : Point α}
    {before drawn : List (Primitive α)} (h : Child style parent cursor before node entry)
    (hparent : Draws style parent cursor drawn finish) :
    ∃ inside last after, Draws style node entry inside last ∧
      drawn = before ++ inside ++ after := by
  cases h with
  | item front back hfront => exact hparent.item hfront
  | alternative front back node cursor => exact hparent.alternative
  -- a terminal is no node with something below it, so one rule is left for each
  | optional item cursor =>
      cases hparent with
      | terminal look => cases look
      | optional hitem => exact ⟨_, _, _, hitem, rfl⟩
  | zeroOrMore item cursor =>
      cases hparent with
      | terminal look => cases look
      | zeroOrMore hitem => exact ⟨_, _, _, hitem, rfl⟩
  | oneOrMore item cursor =>
      cases hparent with
      | terminal look => cases look
      | oneOrMore hitem => exact ⟨_, _, _, hitem, rfl⟩
  | counted item quantifier cursor =>
      cases hparent with
      | terminal look => cases look
      | counted _ hitem => exact ⟨_, _, [], hitem, (List.append_nil _).symm⟩
  | group content kind cursor =>
      cases hparent with
      | terminal look => cases look
      | group _ hcontent => exact ⟨_, _, _, hcontent, rfl⟩

/-- The first item of a sequence starts where the sequence does. -/
theorem Child.head (item : Node) (items : List Node) (cursor : Point α) :
    Child style (.sequence (item :: items)) cursor [] item cursor :=
  .item [] items (Draws.nil cursor).sketch_eq

/-- A later item of a sequence is drawn behind the first. -/
theorem Child.of_tail {item node : Node} {items : List Node} {cursor middle entry : Point α}
    {drawn before : List (Primitive α)} (hitem : Draws style item cursor drawn middle)
    (h : Child style (.sequence items) middle before node entry) :
    Child style (.sequence (item :: items)) cursor (drawn ++ before) node entry := by
  cases h with
  | item front back hfront =>
      refine .item (item :: front) back ?_
      rw [sketch] at hfront ⊢
      rw [sketchItems, hitem.sketch_eq, Sketch.bind_ok, hfront]

/-! ### Any node of a tree -/

/-- **A node of a tree draws a stretch of what the tree draws**, right behind what is
drawn before the node is reached. -/
theorem Reaches.draws {before drawn : List (Primitive α)} {node : Node} {cursor finish : Point α}
    (h : Reaches style root start before node cursor)
    (hroot : Draws style root start drawn finish) :
    ∃ inside last after, Draws style node cursor inside last ∧
      drawn = before ++ inside ++ after := by
  induction h with
  | root => exact ⟨drawn, finish, [], hroot, (List.append_nil drawn).symm⟩
  | child _ hchild ih =>
      obtain ⟨outer, outerLast, outerAfter, hparent, rfl⟩ := ih
      obtain ⟨inner, innerLast, innerAfter, hnode, rfl⟩ := hchild.draws hparent
      exact ⟨inner, innerLast, innerAfter ++ outerAfter, hnode, by simp only [List.append_assoc]⟩

/-- A child of a proper tree is drawn from somewhere. -/
theorem exists_child (style : Style α) {parent child : Node} (proper : parent.Proper)
    (h : child ∈ parent.children) (cursor : Point α) :
    ∃ before entry, Child style parent cursor before child entry := by
  cases parent with
  -- where an item starts is known once the items in front of it are drawn
  | sequence items =>
      obtain ⟨front, back, rfl⟩ := List.append_of_mem h
      have hfront : (Node.sequence front).Proper := Node.proper_sequence_iff.2 fun item hitem =>
        Node.proper_sequence_iff.1 proper item (List.mem_append_left _ hitem)
      obtain ⟨drawn, middle, hdraws⟩ := exists_draws style hfront cursor
      exact ⟨drawn, middle, .item front back hdraws.sketch_eq⟩
  | choice alternatives =>
      obtain ⟨front, back, rfl⟩ := List.append_of_mem h
      exact ⟨_, _, .alternative front back child cursor⟩
  | optional item =>
      obtain rfl := List.mem_singleton.1 h
      exact ⟨_, _, .optional child cursor⟩
  | zeroOrMore item =>
      obtain rfl := List.mem_singleton.1 h
      exact ⟨_, _, .zeroOrMore child cursor⟩
  | oneOrMore item =>
      obtain rfl := List.mem_singleton.1 h
      exact ⟨_, _, .oneOrMore child cursor⟩
  | counted item quantifier =>
      obtain rfl := List.mem_singleton.1 h
      exact ⟨_, _, .counted child quantifier cursor⟩
  | group content kind =>
      obtain rfl := List.mem_singleton.1 h
      exact ⟨_, _, .group child kind cursor⟩
  | _ => cases h

/-- Every node of a proper tree is proper. -/
theorem Below.proper {node : Node} (h : Below root node) (proper : root.Proper) : node.Proper := by
  induction h with
  | refl => exact proper
  | tail _ hmem ih => exact ih.of_mem_children hmem

/-- **Every node of a proper tree is drawn from somewhere.** -/
theorem exists_reaches (style : Style α) {node : Node} (proper : root.Proper) (start : Point α)
    (h : Below root node) : ∃ before cursor, Reaches style root start before node cursor := by
  induction h with
  | refl => exact ⟨[], start, .root⟩
  | tail hparent hmem ih =>
      obtain ⟨before, cursor, hreaches⟩ := ih
      obtain ⟨more, entry, hchild⟩ := exists_child style (Below.proper hparent proper) hmem cursor
      exact ⟨_, entry, hreaches.child hchild⟩

/-! ### Sequences -/

/-- Every sequence in a tree is drawn from somewhere, and wherever it is, what an item draws
stands in a relation to what any later item draws.  An item starts where the items in
front of it end. -/
structure InSequences (style : Style α) (root : Node) (start : Point α)
    (rel : List (Primitive α) → List (Primitive α) → Prop) : Prop where
  /-- Every sequence below the root is drawn from somewhere. -/
  reached : ∀ items, Below root (.sequence items) →
    ∃ before cursor, Reaches style root start before (.sequence items) cursor
  /-- Wherever it is, the two items start where the items in front of them end, and are related.
  -/
  rel : ∀ before front item between next back cursor,
    Reaches style root start before
      (.sequence (front ++ item :: (between ++ next :: back))) cursor →
    ∃ entry nextEntry,
      (sketch style (.sequence front) cursor).outcome = .ok entry ∧
      (sketch style (.sequence (front ++ item :: between)) cursor).outcome = .ok nextEntry ∧
      rel (sketch style item entry).drawn (sketch style next nextEntry).drawn

end Layout
end Railroad
