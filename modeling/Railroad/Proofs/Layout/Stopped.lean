/-
# Where a drawing stops

A drawing that ends at a stray object ends in one of the children of the root, or at the
root itself, and what is drawn by then is what was drawn in front of that child and what
the child drew (`exists_stopped_child`):

| node | what was drawn in front |
| --- | --- |
| sequence | the items in front, all of them to their ends |
| choice | the alternatives in front, and no connector |
| optional, loop | nothing |
| counted, group | the caption |

So the drawing stops where the object stands, with all that is drawn in front of the object
and nothing else (`exists_reaches_stray`).
-/

import Railroad.Proofs.Layout.Reaches
import Railroad.Proofs.Pattern.Preorder

namespace Railroad
namespace Layout

open Pattern Drawing

variable {α β γ : Type} {object : Stray}

namespace Sketch

variable {first : Sketch α β}

/-- If nothing fails behind a sketch, a stray object was met in the sketch, and what is
behind it was not drawn. -/
theorem stopped_of_bind {next : β → Sketch α γ}
    (hnext : ∀ value, ∃ result, (next value).outcome = .ok result)
    (h : (first >>= next).outcome = .error object) :
    first.outcome = .error object ∧ (first >>= next).drawn = first.drawn := by
  obtain ⟨drawn, outcome⟩ := first
  cases outcome with
  | error other =>
      obtain rfl : other = object := Except.error.inj h
      exact ⟨rfl, rfl⟩
  | ok value =>
      obtain ⟨result, hresult⟩ := hnext value
      cases hresult.symm.trans h

/-- A result that is worked on is not drawn again. -/
theorem drawn_bind_pure (f : β → γ) : (first >>= fun value => Pure.pure (f value)).drawn =
    first.drawn := by
  obtain ⟨drawn, outcome⟩ := first
  cases outcome with
  | error other => rfl
  | ok value => exact List.append_nil drawn

end Sketch

variable [Scalar α] {style : Style α} {cursor : Point α}

/-! ### Items and alternatives -/

/-- A sequence stops in one of its items, behind those in front of it. -/
theorem exists_stopped_item {items : List Node}
    (h : (sketchItems style items cursor).outcome = .error object) :
    ∃ front item back before middle, items = front ++ item :: back ∧
      sketch style (.sequence front) cursor = ⟨before, .ok middle⟩ ∧
      (sketch style item middle).outcome = .error object ∧
      (sketchItems style items cursor).drawn = before ++ (sketch style item middle).drawn := by
  induction items generalizing cursor with
  | nil =>
      rw [sketchItems] at h
      cases h
  | cons item items ih =>
      rw [sketchItems] at h ⊢
      -- either the first item stops, or it is drawn and a later one stops
      cases hitem : sketch style item cursor with
      | mk drawn outcome =>
          rw [hitem] at h
          cases outcome with
          | error other =>
              have hempty : Draws style (.sequence []) cursor [] cursor := .nil cursor
              refine ⟨[], item, items, [], cursor, rfl, hempty.sketch_eq, ?_, ?_⟩
              · rwa [hitem]
              · rw [hitem]
                rfl
          | ok middle =>
              obtain ⟨front, next, back, before, last, rfl, hfront, hstop, hdrawn⟩ := ih h
              refine ⟨item :: front, next, back, drawn ++ before, last, rfl, ?_, hstop, ?_⟩
              · rw [sketch] at hfront ⊢
                rw [sketchItems, hitem, Sketch.bind_ok, hfront]
              · rw [Sketch.bind_ok, hdrawn, List.append_assoc]

/-- What the alternatives of a choice draw behind the first, if this comes to its end. -/
theorem drawn_sketchBranches_cons {node : Node} (alternatives : List Node) {count index : Nat}
    {drawn : List (Primitive α)} {finish : Point α}
    (h : sketch style node (branchEntry style cursor count index) = ⟨drawn, .ok finish⟩) :
    (sketchBranches style cursor count index (node :: alternatives)).drawn =
      drawn ++ (sketchBranches style cursor count (index + 1) alternatives).drawn := by
  rw [sketchBranches, h, Sketch.bind_ok]
  exact congrArg (drawn ++ ·) (Sketch.drawn_bind_pure _)

/-- A choice stops in one of its alternatives, behind those in front of it. -/
theorem exists_stopped_alternative {alternatives : List Node} {count index : Nat}
    (h : (sketchBranches style cursor count index alternatives).outcome = .error object) :
    ∃ front node back, alternatives = front ++ node :: back ∧
      (sketch style node (branchEntry style cursor count (index + front.length))).outcome =
        .error object ∧
      (sketchBranches style cursor count index alternatives).drawn =
        (sketchBranches style cursor count index front).drawn ++
          (sketch style node (branchEntry style cursor count (index + front.length))).drawn := by
  induction alternatives generalizing index with
  | nil =>
      rw [sketchBranches] at h
      cases h
  | cons node alternatives ih =>
      -- as for the items of a row, but each alternative has an entry of its own
      cases hnode : sketch style node (branchEntry style cursor count index) with
      | mk drawn outcome =>
          cases outcome with
          | error other =>
              rw [sketchBranches, hnode, Sketch.bind_error] at h ⊢
              refine ⟨[], node, alternatives, rfl, ?_, ?_⟩
              · rw [List.length_nil, Nat.add_zero, hnode]
                exact congrArg Except.error (Except.error.inj h)
              · rw [List.length_nil, Nat.add_zero, hnode, sketchBranches]
                rfl
          | ok finish =>
              rw [sketchBranches, hnode, Sketch.bind_ok] at h
              obtain ⟨hrest, -⟩ := Sketch.stopped_of_bind (fun _ => ⟨_, rfl⟩) h
              obtain ⟨front, other, back, rfl, hstop, hdrawn⟩ := ih hrest
              have hindex : index + 1 + front.length = index + (node :: front).length := by
                rw [List.length_cons]
                omega
              rw [hindex] at hstop hdrawn
              refine ⟨node :: front, other, back, rfl, hstop, ?_⟩
              rw [drawn_sketchBranches_cons _ hnode, drawn_sketchBranches_cons _ hnode, hdrawn,
                List.append_assoc]

/-! ### Trees -/

/-- **A drawing stops at its root or in a child of it**, behind what is drawn in front of the
child. -/
theorem exists_stopped_child {node : Node}
    (h : (sketch style node cursor).outcome = .error object) :
    (node = .stray object ∧ (sketch style node cursor).drawn = []) ∨
    ∃ before child entry, child ∈ node.children ∧ Child style node cursor before child entry ∧
      (sketch style child entry).outcome = .error object ∧
      (sketch style node cursor).drawn = before ++ (sketch style child entry).drawn := by
  cases node with
  | sequence items =>
      rw [sketch] at h ⊢
      obtain ⟨front, item, back, before, middle, rfl, hfront, hstop, hdrawn⟩ :=
        exists_stopped_item h
      exact .inr ⟨before, item, middle, by simp [Node.children], .item front back hfront, hstop,
        hdrawn⟩
  -- the connections stop nothing, so one of the alternatives has
  | choice alternatives =>
      rw [sketch] at h ⊢
      obtain ⟨hstop, hdrawn⟩ := Sketch.stopped_of_bind (fun _ => ⟨_, rfl⟩) h
      obtain ⟨front, node, back, rfl, hnode, heq⟩ := exists_stopped_alternative hstop
      rw [Nat.zero_add] at hnode heq
      exact .inr ⟨_, node, _, by simp [Node.children], .alternative front back node cursor, hnode,
        hdrawn.trans heq⟩
  | optional item =>
      rw [sketch] at h ⊢
      obtain ⟨hstop, hdrawn⟩ := Sketch.stopped_of_bind (fun _ => ⟨_, rfl⟩) h
      exact .inr ⟨[], item, _, List.mem_singleton_self _, .optional item cursor, hstop, hdrawn⟩
  | zeroOrMore item =>
      rw [sketch] at h ⊢
      obtain ⟨hstop, hdrawn⟩ := Sketch.stopped_of_bind (fun _ => ⟨_, rfl⟩) h
      exact .inr ⟨[], item, _, List.mem_singleton_self _, .zeroOrMore item cursor, hstop, hdrawn⟩
  | oneOrMore item =>
      rw [sketch] at h ⊢
      obtain ⟨hstop, hdrawn⟩ := Sketch.stopped_of_bind (fun _ => ⟨_, rfl⟩) h
      exact .inr ⟨[], item, _, List.mem_singleton_self _, .oneOrMore item cursor, hstop, hdrawn⟩
  -- the caption is drawn in front of what is counted, and is kept
  | counted item quantifier =>
      rw [sketch] at h ⊢
      exact .inr ⟨_, item, _, List.mem_singleton_self _, .counted item quantifier cursor, h, rfl⟩
  | group content kind =>
      rw [sketch] at h ⊢
      obtain ⟨hstop, hdrawn⟩ := Sketch.stopped_of_bind (fun _ => ⟨_, rfl⟩) h
      exact .inr ⟨_, content, _, List.mem_singleton_self _, .group content kind cursor, hstop,
        hdrawn⟩
  | stray other =>
      rw [sketch] at h ⊢
      obtain rfl := Except.error.inj h
      exact .inl ⟨rfl, rfl⟩
  | literal _ | escape _ | anyChar | anchorStart | anchorEnd | charClass _ _ | empty =>
      rw [sketch] at h
      cases h

/-- What is reached from a child is reached from its parent. -/
theorem Reaches.of_child {root child node : Node} {start entry place : Point α}
    {before more : List (Primitive α)} (hchild : Child style root start before child entry)
    (h : Reaches style child entry more node place) :
    Reaches style root start (before ++ more) node place := by
  induction h with
  | root =>
      rw [List.append_nil]
      exact Reaches.root.child hchild
  | child _ hnext ih =>
      rw [← List.append_assoc]
      exact ih.child hnext

/-- **A drawing stops at a stray object in the tree**, and all that was drawn is what is drawn
in front of this object. -/
theorem exists_reaches_stray {node : Node}
    (h : (sketch style node cursor).outcome = .error object) :
    ∃ entry, Reaches style node cursor (sketch style node cursor).drawn (.stray object) entry := by
  induction node using Node.induction_children generalizing cursor with
  | step node ih =>
      rcases exists_stopped_child h with
        ⟨rfl, hnil⟩ | ⟨before, child, entry, hmem, hchild, hstop, hdrawn⟩
      · rw [hnil]
        exact ⟨cursor, .root⟩
      · obtain ⟨place, hreaches⟩ := ih child hmem hstop
        rw [hdrawn]
        exact ⟨place, hreaches.of_child hchild⟩

end Layout
end Railroad
