/-
# Sequences do not show in a drawing

A sequence draws nothing of its own: its items are drawn one behind the other, each from the
cursor that the one before it left.  So sequences inside each other are drawn like the one row
that they make, a row of one item like the item, and an empty row like the empty tree, by the
laws of drawing one thing and then another.

Hence a tree is drawn as it was when its sequences are laid out flat, with the very same
numbers, or ends at the same stray object with the same drawn by then (`sketch_flattened`).
A group frames what it finds behind its mark on the list that is drawn on, so this is carried
over to drawing on any list.  With the same for its pattern this is
`sequences_leave_no_trace`.
-/

import Railroad.Layout.Session
import Railroad.Proofs.Layout.Canvas
import Railroad.Proofs.Pattern.Flattening

namespace Railroad
namespace Layout

open Pattern Drawing

namespace Sketch

variable {α β γ δ : Type}

/-- Drawing nothing behind a sketch, and keeping its value, changes nothing. -/
theorem bind_pure_eq_self (first : Sketch α β) :
    (first >>= fun value => Pure.pure value) = first := by
  obtain ⟨drawn, outcome⟩ := first
  cases outcome with
  | error object => rfl
  | ok value => exact congrArg (Sketch.mk · _) (List.append_nil drawn)

/-- Drawing three things one after the other, it does not matter which two are taken
together. -/
theorem bind_bind (first : Sketch α β) (second : β → Sketch α γ) (third : γ → Sketch α δ) :
    (first >>= second) >>= third = first >>= fun value => second value >>= third := by
  obtain ⟨drawn, outcome⟩ := first
  cases outcome with
  | error object => rfl
  | ok value =>
      rw [bind_ok, bind_ok]
      cases second value with
      | mk drawn' outcome' =>
          cases outcome' with
          | error object => rfl
          | ok value' => simp only [bind_ok, List.append_assoc]

instance : LawfulMonad (Sketch α) :=
  LawfulMonad.mk' _ bind_pure_eq_self (fun _ _ => rfl) bind_bind

end Sketch

variable {α : Type} [Scalar α] (style : Style α)

/-! ### Rows -/

/-- Two rows one behind the other are drawn one behind the other. -/
theorem sketchItems_append (items others : List Node) (cursor : Point α) :
    sketchItems style (items ++ others) cursor =
      sketchItems style items cursor >>= sketchItems style others := by
  induction items generalizing cursor with
  | nil =>
      rw [sketchItems]
      rfl
  | cons item items ih =>
      rw [List.cons_append, sketchItems, sketchItems, bind_assoc]
      exact bind_congr ih

/-- A row of one item is drawn like the item. -/
theorem sketchItems_singleton (item : Node) (cursor : Point α) :
    sketchItems style [item] cursor = sketch style item cursor := by
  rw [sketchItems]
  exact bind_pure _

/-- The node that stands for a row is drawn as the row is. -/
theorem sketch_ofItems (items : List Node) (cursor : Point α) :
    sketch style (.ofItems items) cursor = sketchItems style items cursor := by
  match items with
  | [] => rw [Node.ofItems, sketch, sketchItems]
  | [item] => exact (sketchItems_singleton style item cursor).symm
  | first :: second :: others =>
      have hlength : 2 ≤ (first :: second :: others).length := Nat.le_add_left 2 others.length
      rw [Node.ofItems_of_two_le hlength, sketch]

/-- The row that a node stands for is drawn as the node is. -/
theorem sketchItems_asItems (node : Node) (cursor : Point α) :
    sketchItems style node.asItems cursor = sketch style node cursor := by
  cases node with
  | empty => rw [Node.asItems, sketch, sketchItems]
  | sequence items => rw [Node.asItems, sketch]
  | _ => exact sketchItems_singleton style _ cursor

variable {style}

/-- The row that some items make is drawn as the items are. -/
theorem sketchItems_flattenedRow {items : List Node}
    (h : ∀ item ∈ items, ∀ cursor, sketch style item.flattened cursor = sketch style item cursor)
    (cursor : Point α) :
    sketchItems style (Node.flattenedRow items) cursor = sketchItems style items cursor := by
  induction items generalizing cursor with
  | nil => rfl
  | cons item items ih =>
      obtain ⟨hitem, hitems⟩ := List.forall_mem_cons.1 h
      rw [Node.flattenedRow, sketchItems_append, sketchItems_asItems, hitem, sketchItems]
      exact bind_congr (ih hitems)

/-- Alternatives that are drawn as before make a choice that is, since there are as many. -/
theorem sketchBranches_flattenedAll {alternatives : List Node}
    (h : ∀ node ∈ alternatives, ∀ cursor,
      sketch style node.flattened cursor = sketch style node cursor)
    (cursor : Point α) (count index : Nat) :
    sketchBranches style cursor count index (Node.flattenedAll alternatives) =
      sketchBranches style cursor count index alternatives := by
  induction alternatives generalizing index with
  | nil => rfl
  | cons node alternatives ih =>
      obtain ⟨hnode, hnodes⟩ := List.forall_mem_cons.1 h
      rw [Node.flattenedAll, sketchBranches, hnode, sketchBranches]
      simp only [ih hnodes]

/-! ### Trees -/

/-- **A tree is drawn as it was when its sequences are laid out flat**, or ends at the same
stray object, with the same drawn by then. -/
theorem sketch_flattened (node : Node) (cursor : Point α) :
    sketch style node.flattened cursor = sketch style node cursor := by
  induction node using Node.induction_children generalizing cursor with
  | step node ih =>
      cases node with
      | sequence items =>
          rw [Node.flattened, sketch_ofItems, sketch]
          exact sketchItems_flattenedRow ih cursor
      -- where an alternative starts depends on how many there are, which has not changed
      | choice alternatives =>
          have hlength : (Node.flattenedAll alternatives).length = alternatives.length := by
            rw [Node.flattenedAll_eq_map, List.length_map]
          have hbranches := sketchBranches_flattenedAll ih cursor alternatives.length 0
          rw [Node.flattened, sketch, hlength, sketch]
          exact congrArg (· >>= joined style cursor) hbranches
      | optional item =>
          have hitem := ih item (List.mem_singleton_self _)
          simp only [Node.flattened, sketch, hitem]
      | zeroOrMore item =>
          have hitem := ih item (List.mem_singleton_self _)
          simp only [Node.flattened, sketch, hitem]
      | oneOrMore item =>
          have hitem := ih item (List.mem_singleton_self _)
          simp only [Node.flattened, sketch, hitem]
      | counted item quantifier =>
          have hitem := ih item (List.mem_singleton_self _)
          simp only [Node.flattened, sketch, hitem]
      | group content kind =>
          have hcontent := ih content (List.mem_singleton_self _)
          simp only [Node.flattened, sketch, hcontent]
      | _ => rfl

/-- **Sequences leave no trace.**  A tree whose sequences are laid out flat, so that each is a
row of two or more nodes that are neither sequences nor empty, has the pattern that the tree
had, or is refused for the same stray object.  Drawn on any list, in any style and from any
cursor, it leaves the same list and the same cursor, or ends at the same stray object with the
same on the list by then; and so it is when it is added to any session. -/
theorem sequences_leave_no_trace (node : Node) :
    node.flattened.IsFlat ∧ node.flattened.toPattern = node.toPattern ∧
      (∀ (style : Style α) (cursor : Point α) (list : List (Primitive α)),
        (paint style node.flattened cursor).on list = (paint style node cursor).on list) ∧
      ∀ session : Session α, session.add node.flattened = session.add node := by
  refine ⟨node.isFlat_flattened, ?pattern, fun style cursor list => ?list, fun session => ?session⟩
  case pattern => rw [Node.toPattern, Node.spelling_flattened, Node.toPattern]
  case list => rw [paint_on, paint_on, sketch_flattened]
  case session => rw [Session.add, Session.add, sketch_flattened]

end Layout
end Railroad
