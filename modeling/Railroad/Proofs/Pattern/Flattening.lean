/-
# Sequences laid out flat

A tree made by hand may hold sequences that no pattern has: with no items, with one, inside
each other, or with empty trees among their items.  `Node.flattened` rebuilds a tree from the
leaves up, with every sequence laid out as the one row of what its items are:

| item, flattened | what it adds to the row |
| --- | --- |
| sequence | its items |
| empty | nothing |
| any other node | itself |

A row of no items becomes the empty tree and a row of one item that item.  In the tree that
comes out every sequence has two or more items, and none of them is a sequence or empty
(`Node.isFlat_flattened`).

The pattern of a tree does not show any of this (`Node.spelling_flattened`): a sequence is
written as its items one after the other, an empty tree as nothing.
-/

import Railroad.Proofs.Pattern.Composition
import Railroad.Proofs.Pattern.Preorder

namespace Railroad
namespace Pattern
namespace Node

mutual

/-- A tree with its sequences laid out flat. -/
def flattened : Node → Node
  | sequence items => ofItems (flattenedRow items)
  | choice alternatives => choice (flattenedAll alternatives)
  | optional item => optional (flattened item)
  | zeroOrMore item => zeroOrMore (flattened item)
  | oneOrMore item => oneOrMore (flattened item)
  | counted item quantifier => counted (flattened item) quantifier
  | group content kind => group (flattened content) kind
  | node => node

/-- The row that the items of a sequence make. -/
def flattenedRow : List Node → List Node
  | [] => []
  | item :: items => (flattened item).asItems ++ flattenedRow items

/-- The trees of a list, each laid out flat. -/
def flattenedAll : List Node → List Node
  | [] => []
  | node :: nodes => flattened node :: flattenedAll nodes

end

/-- Alternatives are laid out flat one by one. -/
theorem flattenedAll_eq_map (nodes : List Node) : flattenedAll nodes = nodes.map flattened := by
  induction nodes with
  | nil => rfl
  | cons node nodes ih => rw [flattenedAll, ih, List.map_cons]

/-- A row takes in what the rows among its items hold. -/
theorem flattenedRow_eq_flatMap (items : List Node) :
    flattenedRow items = items.flatMap fun item => item.flattened.asItems := by
  induction items with
  | nil => rfl
  | cons item items ih => rw [flattenedRow, ih, List.flatMap_cons]

/-! ### Flat trees -/

/-- Whether a node is neither the empty tree nor a sequence. -/
def IsSingle : Node → Prop
  | empty => False
  | sequence _ => False
  | _ => True

/-- Whether a node is a row of two or more single nodes, if it is a sequence. -/
def IsFlatRow : Node → Prop
  | sequence items => 2 ≤ items.length ∧ ∀ item ∈ items, item.IsSingle
  | _ => True

/-- Whether every sequence of a tree is a row of two or more single nodes. -/
def IsFlat (node : Node) : Prop := ∀ part ∈ node.preorder, part.IsFlatRow

variable {node : Node} {items : List Node}

/-- A tree is flat if it is a row as it should be, and its children are flat. -/
theorem isFlat_iff : node.IsFlat ↔ node.IsFlatRow ∧ ∀ child ∈ node.children, child.IsFlat := by
  rw [IsFlat, preorder_eq, List.forall_mem_cons]
  refine and_congr_right fun _ => ⟨fun h child hchild part hpart => ?_, fun h part hpart => ?_⟩
  · exact h part (List.mem_flatMap_of_mem hchild hpart)
  · obtain ⟨child, hchild, hpart⟩ := List.mem_flatMap.1 hpart
    exact h child hchild part hpart

/-- The items of a flat tree are single and flat. -/
theorem IsFlat.of_mem_asItems (h : node.IsFlat) :
    ∀ item ∈ node.asItems, item.IsSingle ∧ item.IsFlat := by
  cases node with
  | empty => exact List.forall_mem_nil _
  | sequence items =>
      obtain ⟨⟨-, hsingle⟩, hflat⟩ := isFlat_iff.1 h
      exact fun item hitem => ⟨hsingle item hitem, hflat item hitem⟩
  | _ => exact List.forall_mem_singleton.2 ⟨trivial, h⟩

/-- A row of single and flat nodes is a flat tree. -/
theorem isFlat_ofItems (h : ∀ item ∈ items, item.IsSingle ∧ item.IsFlat) :
    (ofItems items).IsFlat := by
  match items with
  | [] => exact isFlat_iff.2 ⟨trivial, List.forall_mem_nil _⟩
  | [item] => exact (h item (List.mem_singleton_self _)).2
  | first :: second :: others =>
      refine isFlat_iff.2 ⟨⟨?_, fun item hitem => (h item hitem).1⟩, fun item hitem =>
        (h item hitem).2⟩
      exact Nat.le_add_left 2 others.length

/-- **A tree is laid out flat.** -/
theorem isFlat_flattened (node : Node) : node.flattened.IsFlat := by
  have hsame {child : Node} (h : child.IsFlat) : ∀ other ∈ [child], other.IsFlat :=
    List.forall_mem_singleton.2 h
  -- every child is flat by induction, so only the row of the node itself is in question
  induction node using induction_children with
  | step node ih =>
      cases node with
      | sequence items =>
          rw [flattened, flattenedRow_eq_flatMap]
          refine isFlat_ofItems fun item hitem => ?_
          -- the items of the new row are those of the flattened children
          obtain ⟨child, hchild, hitem⟩ := List.mem_flatMap.1 hitem
          exact (ih child hchild).of_mem_asItems item hitem
      | choice alternatives =>
          rw [flattened, flattenedAll_eq_map]
          exact isFlat_iff.2 ⟨trivial, List.forall_mem_map.2 ih⟩
      | optional item =>
          exact isFlat_iff.2 ⟨trivial, hsame (ih item (List.mem_singleton_self _))⟩
      | zeroOrMore item =>
          exact isFlat_iff.2 ⟨trivial, hsame (ih item (List.mem_singleton_self _))⟩
      | oneOrMore item =>
          exact isFlat_iff.2 ⟨trivial, hsame (ih item (List.mem_singleton_self _))⟩
      | counted item quantifier =>
          exact isFlat_iff.2 ⟨trivial, hsame (ih item (List.mem_singleton_self _))⟩
      | group content kind =>
          exact isFlat_iff.2 ⟨trivial, hsame (ih content (List.mem_singleton_self _))⟩
      | _ => exact isFlat_iff.2 ⟨trivial, List.forall_mem_nil _⟩

/-- Nested and empty sequences are gone, also under quantifiers; a choice stays. -/
example : (sequence [sequence [empty, sequence [anyChar]],
    optional (sequence [sequence [], choice [sequence []]])]).flattened =
    sequence [anyChar, optional (choice [empty])] := rfl

/-! ### Patterns of rows -/

/-- One text behind another; what stops the first is what stops both. -/
def writtenThen (first second : Except Stray (List Char)) : Except Stray (List Char) :=
  first.bind fun text => second.map (text ++ ·)

/-- Nothing written behind a text leaves the text, … -/
theorem writtenThen_nil (first : Except Stray (List Char)) :
    writtenThen first (.ok []) = first := by
  cases first with
  | error object => rfl
  | ok text => exact congrArg Except.ok (List.append_nil text)

/-- … and so does nothing in front of it. -/
theorem nil_writtenThen (second : Except Stray (List Char)) :
    writtenThen (.ok []) second = second := by
  cases second <;> rfl

/-- Of three texts it does not matter which two are written together. -/
theorem writtenThen_assoc (first second third : Except Stray (List Char)) :
    writtenThen (writtenThen first second) third =
      writtenThen first (writtenThen second third) := by
  cases first with
  | error object => rfl
  | ok text =>
      cases second with
      | error object => rfl
      | ok text' =>
          cases third with
          | error object => rfl
          | ok text'' => exact congrArg Except.ok (List.append_assoc ..)

/-- A sequence is written as its first item and the others behind it. -/
theorem spelling_sequence_cons (item : Node) (items : List Node) :
    (sequence (item :: items)).spelling =
      writtenThen item.spelling (sequence items).spelling := by
  simp only [spelling, spellings]
  cases item.spelling with
  | error object => rfl
  | ok text => cases spellings items <;> rfl

/-- Two rows one behind the other are written one behind the other. -/
theorem spelling_sequence_append (items others : List Node) :
    (sequence (items ++ others)).spelling =
      writtenThen (sequence items).spelling (sequence others).spelling := by
  induction items with
  | nil => exact (nil_writtenThen _).symm
  | cons item items ih =>
      rw [List.cons_append, spelling_sequence_cons, ih, spelling_sequence_cons, writtenThen_assoc]

/-- A row of one item is written like the item. -/
theorem spelling_sequence_singleton (item : Node) :
    (sequence [item]).spelling = item.spelling := by
  rw [spelling_sequence_cons]
  exact writtenThen_nil _

/-- The node that stands for a row is written as the row is. -/
theorem spelling_ofItems (items : List Node) :
    (ofItems items).spelling = (sequence items).spelling := by
  match items with
  | [] => rfl
  | [item] => exact (spelling_sequence_singleton item).symm
  | _ :: _ :: _ => rfl

/-- The row that a node stands for is written as the node is. -/
theorem spelling_asItems (node : Node) : (sequence node.asItems).spelling = node.spelling := by
  cases node with
  | empty => rfl
  | sequence items => rfl
  | _ => exact spelling_sequence_singleton _

/-- The row that some items make is written as the items are. -/
theorem spelling_flattenedRow {items : List Node}
    (h : ∀ item ∈ items, item.flattened.spelling = item.spelling) :
    (sequence (flattenedRow items)).spelling = (sequence items).spelling := by
  induction items with
  | nil => rfl
  | cons item items ih =>
      obtain ⟨hitem, hitems⟩ := List.forall_mem_cons.1 h
      rw [flattenedRow, spelling_sequence_append, spelling_asItems, hitem, ih hitems,
        spelling_sequence_cons]

/-- Alternatives that are written as before are written so together. -/
theorem spellings_flattenedAll {nodes : List Node}
    (h : ∀ node ∈ nodes, node.flattened.spelling = node.spelling) :
    spellings (flattenedAll nodes) = spellings nodes := by
  induction nodes with
  | nil => rfl
  | cons node nodes ih =>
      obtain ⟨hnode, hnodes⟩ := List.forall_mem_cons.1 h
      rw [flattenedAll, spellings, hnode, ih hnodes, spellings]

/-- **A tree is written as it was when its sequences are laid out flat**, or is refused for the
same stray object. -/
theorem spelling_flattened (node : Node) : node.flattened.spelling = node.spelling := by
  induction node using induction_children with
  | step node ih =>
      cases node with
      | sequence items =>
          rw [flattened, spelling_ofItems]
          exact spelling_flattenedRow ih
      -- bars stand between the same texts
      | choice alternatives =>
          have hall : spellings (flattenedAll alternatives) = spellings alternatives :=
            spellings_flattenedAll ih
          rw [flattened, spelling, hall, spelling]
      | optional item => rw [flattened, spelling, ih item (List.mem_singleton_self _), spelling]
      | zeroOrMore item => rw [flattened, spelling, ih item (List.mem_singleton_self _), spelling]
      | oneOrMore item => rw [flattened, spelling, ih item (List.mem_singleton_self _), spelling]
      | counted item quantifier =>
          rw [flattened, spelling, ih item (List.mem_singleton_self _), spelling]
      | group content kind =>
          rw [flattened, spelling, ih content (List.mem_singleton_self _), spelling]
      | _ => rfl

end Node
end Pattern
end Railroad
