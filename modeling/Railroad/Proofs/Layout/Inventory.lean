/-
# What a drawing consists of

Every node draws a few primitives of its own, besides what its children draw:

| node | boxes | captions | paths | arrowheads | frames |
| --- | --- | --- | --- | --- | --- |
| literal, escape, `.`, `^`, `$` | 1 | | | | |
| character class | 1 for each member | 1 | | | |
| choice | | | 2 for each alternative | | |
| optional | | | 1 | | |
| zero or more | | | 2 | 1 | |
| one or more | | | 1 | 1 | |
| counted | | 1 | | | |
| group | | 1, unless it is capturing | | | 1 |

Nothing else is drawn, and nothing twice: the primitives of each kind are as many as all
nodes of the tree draw of their own (`Draws.countKind_eq`), whether connectors are straight
or curved and whatever the numbers are.  Boxes and captions are drawn before the children,
so their texts stand in the drawing as their nodes stand in preorder
(`Draws.filterMap_eq_flatMap`).  Counted by the census of the tree, this is
`drawing_inventory`.
-/

import Mathlib.Algebra.Ring.Nat
import Railroad.Proofs.Layout.Pieces
import Railroad.Proofs.Pattern.Tally

namespace Railroad
namespace Drawing

variable {α : Type}

/-- The label of a box. -/
def Primitive.label? : Primitive α → Option String
  | .box b => some b.label
  | _ => none

/-- The text of a caption. -/
def Primitive.text? : Primitive α → Option String
  | .caption c => some c.text
  | _ => none

instance : PicksSolids (Primitive.label? : Primitive α → _) :=
  ⟨fun _ => rfl, fun _ => rfl, fun _ => rfl⟩

instance : SkipsPaths (Primitive.text? : Primitive α → _) := ⟨fun _ => rfl, fun _ => rfl⟩

/-- How many of some primitives are of a kind. -/
def countKind (kind : Kind) (drawn : List (Primitive α)) : Nat := drawn.countP (·.kind == kind)

section

variable (kind : Kind) (p : Primitive α) (drawn others : List (Primitive α))

@[simp] theorem countKind_nil : countKind kind ([] : List (Primitive α)) = 0 := rfl

@[simp] theorem countKind_cons :
    countKind kind (p :: drawn) = countKind kind drawn + if p.kind = kind then 1 else 0 := by
  simp [countKind, List.countP_cons]

/-- The primitives of a kind in two drawings together. -/
@[simp] theorem countKind_append :
    countKind kind (drawn ++ others) = countKind kind drawn + countKind kind others :=
  List.countP_append ..

/-- The primitives of a kind in several drawings together. -/
theorem countKind_flatMap {β : Type} (f : β → List (Primitive α)) (xs : List β) :
    countKind kind (xs.flatMap f) = (xs.map fun x => countKind kind (f x)).sum :=
  List.countP_flatMap ..

end

end Drawing

namespace Layout

open Pattern Drawing

/-! ### What a node draws of its own -/

/-- The labels of the boxes that a node draws. -/
@[simp] def labelsOf : Node → List String
  | .literal text => [literalLabel text]
  | .escape text => [escapeLabel text]
  | .anyChar => ["any character"]
  | .anchorStart => ["start of line"]
  | .anchorEnd => ["end of line"]
  | .charClass items _ => items.map itemLabel
  | _ => []

/-- The texts of the captions that a node draws. -/
@[simp] def textsOf : Node → List String
  | .charClass _ negated => [classCaption negated]
  | .counted _ quantifier => [quantifier]
  | .group _ kind => if kind = .capturing then [] else [groupCaption kind]
  | _ => []

/-- How many paths a node draws. -/
@[simp] def pathsOf : Node → Nat
  | .choice alternatives => 2 * alternatives.length
  | .optional _ => 1
  | .zeroOrMore _ => 2
  | .oneOrMore _ => 1
  | _ => 0

/-- How many arrowheads a node draws. -/
@[simp] def arrowsOf : Node → Nat
  | .zeroOrMore _ => 1
  | .oneOrMore _ => 1
  | _ => 0

/-- How many frames a node draws. -/
@[simp] def framesOf : Node → Nat
  | .group _ _ => 1
  | _ => 0

/-- How many primitives of a kind a node draws, those of its children left out. -/
@[simp] def ownCount (node : Node) : Kind → Nat
  | .box => (labelsOf node).length
  | .caption => (textsOf node).length
  | .path => pathsOf node
  | .arrow => arrowsOf node
  | .frame => framesOf node

variable {α : Type} [Scalar α] {style : Style α} {cursor finish : Point α} {node : Node}
  {drawn : List (Primitive α)}

/-! ### Trees part by part -/

section

variable {β : Type} (own : Node → List β) (measure : Node → Nat) (node : Node)

/-- What the nodes of a tree contribute in preorder: the tree itself, then its children. -/
theorem flatMap_preorder :
    node.preorder.flatMap own =
      own node ++ node.children.flatMap fun child => child.preorder.flatMap own := by
  rw [Node.preorder_eq, List.flatMap_cons, List.flatMap_assoc]

/-- A sum over the nodes of a tree: the tree itself, and the sums over its children. -/
theorem sum_preorder :
    (node.preorder.map measure).sum =
      measure node + (node.children.map fun child => (child.preorder.map measure).sum).sum := by
  rw [Node.preorder_eq, List.map_cons, List.sum_cons, List.map_flatMap, List.flatMap_def,
    List.sum_flatten, List.map_map]
  rfl

end

/-- A list whose parts are found by their index. -/
theorem map_range_length {β γ : Type} {xs : List β} {f : Nat → γ} {g : β → γ}
    (h : ∀ i x, xs[i]? = some x → f i = g x) : (List.range xs.length).map f = xs.map g := by
  refine List.ext_getElem (by simp) fun i hi _ => ?_
  have hlt : i < xs.length := by simpa using hi
  simpa using h i xs[i] (List.getElem?_eq_getElem hlt)

/-! ### What is read off boxes and captions -/

/-- Whether `own` is what is read off the boxes and captions that a node draws before its
children, and nothing is read off what it draws behind them. -/
structure ReadInOrder {β : Type} (style : Style α) (read : Primitive α → Option β)
    (own : Node → List β) : Prop extends SkipsPaths read where
  /-- Nothing is read off a frame, which is drawn behind what it encloses. -/
  frame (f : Frame α) : read (.frame f) = none
  /-- What a terminal shows is in its one box. -/
  terminal {node : Node} {label fill stroke : String} (cursor : Point α) :
    IsTerminal style.palette node label fill stroke →
      [boxAt style cursor (boxWidth style.metrics label) label fill stroke].filterMap read =
        own node
  /-- What a class shows is in its caption and its boxes, in this order. -/
  charClass (items : List ClassItem) (negated : Bool) (cursor : Point α) :
    (.caption (classCaptionAt style items negated cursor) ::
      itemBoxes style cursor (items.map itemLabel)).filterMap read = own (.charClass items negated)
  /-- What is counted stands behind the caption of the count, … -/
  counted (item : Node) (quantifier : String) (cursor : Point α) :
    [countCaption style quantifier cursor].filterMap read = own (.counted item quantifier)
  /-- … and what is grouped behind the caption of the group. -/
  group (content : Node) (kind : GroupKind) (cursor : Point α) :
    (captionOf style kind cursor).filterMap read = own (.group content kind)
  /-- All other nodes show nothing of their own. -/
  sequence (items : List Node) : own (.sequence items) = []
  choice (alternatives : List Node) : own (.choice alternatives) = []
  optional (item : Node) : own (.optional item) = []
  zeroOrMore (item : Node) : own (.zeroOrMore item) = []
  oneOrMore (item : Node) : own (.oneOrMore item) = []
  empty : own .empty = []

/-- **Boxes and captions stand in the drawing as their nodes stand in preorder.** -/
theorem Draws.filterMap_eq_flatMap {β : Type} {read : Primitive α → Option β}
    {own : Node → List β} (hread : ReadInOrder style read own)
    (h : Draws style node cursor drawn finish) :
    drawn.filterMap read = node.preorder.flatMap own := by
  have hpaths : SkipsPaths read := hread.toSkipsPaths
  induction h with
  | terminal look cursor =>
      rw [flatMap_preorder, hread.terminal cursor look]
      cases look <;> simp [Node.children]
  | charClass items negated cursor =>
      rw [flatMap_preorder, hread.charClass]
      simp [Node.children]
  | nil cursor =>
      rw [flatMap_preorder, hread.sequence]
      rfl
  | cons _ _ ihItem ihItems =>
      rw [flatMap_preorder, hread.sequence] at ihItems ⊢
      rw [List.filterMap_append, ihItem, ihItems]
      simp [Node.children]
  -- connections are paths, and these are not read
  | choice drawn finish _ ih =>
      rw [flatMap_preorder, hread.choice, List.filterMap_append, filterMap_flatMap_connectors,
        List.filterMap_flatMap, List.flatMap_def, map_range_length ih]
      simp [Node.children, List.flatMap_def]
  | optional _ ih =>
      rw [flatMap_preorder, hread.optional, List.filterMap_append, ih]
      simp [Node.children]
  | zeroOrMore _ ih =>
      rw [flatMap_preorder, hread.zeroOrMore, List.filterMap_append, ih]
      simp [Node.children]
  | oneOrMore _ ih =>
      rw [flatMap_preorder, hread.oneOrMore, List.filterMap_append, ih]
      simp [Node.children]
  -- a caption comes before what it is about, as the node comes before its children
  | @counted item cursor _ _ quantifier _ ih =>
      rw [flatMap_preorder, ← hread.counted item quantifier cursor, ← List.singleton_append,
        List.filterMap_append, ih]
      simp [Node.children]
  | @group content cursor _ _ kind _ ih =>
      rw [flatMap_preorder, ← hread.group content kind cursor, List.filterMap_append,
        List.filterMap_append, ih, List.filterMap_cons_none (hread.frame _)]
      simp [Node.children]
  | empty cursor =>
      rw [flatMap_preorder, hread.empty]
      rfl

/-- The boxes of a class have the labels of its members, in their order. -/
theorem filterMap_label?_itemBoxes (cursor : Point α) (labels : List String) :
    (itemBoxes style cursor labels).filterMap Primitive.label? = labels := by
  induction labels generalizing cursor with
  | nil => rfl
  | cons label labels ih => exact congrArg (label :: ·) (ih _)

/-- Boxes are no captions. -/
theorem filterMap_text?_itemBoxes (cursor : Point α) (labels : List String) :
    (itemBoxes style cursor labels).filterMap Primitive.text? = [] := by
  induction labels generalizing cursor with
  | nil => rfl
  | cons label labels ih => exact ih _

/-- The labels of boxes are read off in the order of the nodes that they belong to. -/
theorem readInOrder_label? (style : Style α) : ReadInOrder style Primitive.label? labelsOf where
  path _ := rfl
  arrow _ := rfl
  frame _ := rfl
  terminal _ look := by cases look <;> rfl
  charClass items _ cursor := filterMap_label?_itemBoxes cursor (items.map itemLabel)
  counted _ _ _ := rfl
  group _ _ _ := filterMap_captionOf _
  sequence _ := rfl
  choice _ := rfl
  optional _ := rfl
  zeroOrMore _ := rfl
  oneOrMore _ := rfl
  empty := rfl

/-- So are the texts of captions. -/
theorem readInOrder_text? (style : Style α) : ReadInOrder style Primitive.text? textsOf where
  path _ := rfl
  arrow _ := rfl
  frame _ := rfl
  terminal _ look := by cases look <;> rfl
  charClass items negated cursor :=
    congrArg (classCaption negated :: ·) (filterMap_text?_itemBoxes cursor (items.map itemLabel))
  counted _ _ _ := rfl
  group _ kind _ := by
    rw [captionOf, textsOf]
    split <;> rfl
  sequence _ := rfl
  choice _ := rfl
  optional _ := rfl
  zeroOrMore _ := rfl
  oneOrMore _ := rfl
  empty := rfl

/-! ### How many primitives of each kind -/

section

variable (kind : Kind)

@[simp] theorem kind_boxAt (cursor : Point α) (width : α) (label fill stroke : String) :
    (boxAt style cursor width label fill stroke).kind = .box := rfl

@[simp] theorem kind_bypass (startX endX y : α) : (bypass style startX endX y).kind = .path := rfl

@[simp] theorem kind_countCaption (quantifier : String) :
    (countCaption style quantifier cursor).kind = .caption := rfl

/-- The way back is one path and one arrowhead. -/
theorem countKind_loop (startX endX y : α) :
    countKind kind (loop style startX endX y) =
      (if .path = kind then 1 else 0) + if .arrow = kind then 1 else 0 := by
  cases kind <;> rfl

/-- Every group but a capturing one has a caption. -/
theorem countKind_captionOf (groupKind : GroupKind) :
    countKind kind (captionOf style groupKind cursor) =
      if groupKind = .capturing then 0 else if .caption = kind then 1 else 0 := by
  rw [captionOf]
  split <;> cases kind <;> rfl

/-- A branch has two connectors, straight or curved. -/
theorem countKind_connectors (exit : α) (branch : Branch α) :
    countKind kind (connectors style cursor exit branch) = if .path = kind then 2 else 0 := by
  rw [connectors]
  split <;> cases kind <;> rfl

/-- A class has one box for each of its members. -/
theorem countKind_itemBoxes (cursor : Point α) (labels : List String) :
    countKind kind (itemBoxes style cursor labels) = if .box = kind then labels.length else 0 := by
  induction labels generalizing cursor with
  | nil => cases kind <;> rfl
  | cons label labels ih =>
      rw [itemBoxes, countKind_cons, ih, kind_boxAt, List.length_cons]
      split <;> rfl

/-- A choice has two paths for each of its alternatives. -/
theorem countKind_joins (exit : α) (cursor : Point α) (count : Nat) (finish : Nat → Point α) :
    countKind kind ((branchesTo style cursor count finish).flatMap (connectors style cursor exit)) =
      if .path = kind then 2 * count else 0 := by
  simp only [countKind_flatMap, countKind_connectors, branchesTo, List.map_map, Function.comp_def,
    List.map_const', List.length_range, List.sum_replicate_nat]
  split <;> omega

end

/-- **A drawing holds what the nodes of the tree draw of their own, and nothing else.** -/
theorem Draws.countKind_eq (h : Draws style node cursor drawn finish) (kind : Kind) :
    countKind kind drawn = (node.preorder.map fun other => ownCount other kind).sum := by
  induction h with
  | terminal look cursor =>
      rw [sum_preorder]
      cases look <;> cases kind <;> rfl
  | charClass items negated cursor =>
      rw [sum_preorder, countKind_cons, countKind_itemBoxes]
      cases kind <;> simp [Node.children, Primitive.kind]
  | nil cursor =>
      rw [sum_preorder]
      cases kind <;> rfl
  | cons _ _ ihItem ihItems =>
      rw [sum_preorder] at ihItems ⊢
      rw [countKind_append, ihItem, ihItems]
      cases kind <;> simp [Node.children]
  -- two paths for each alternative; how many boxes and frames is what the alternatives say
  | choice drawn finish _ ih =>
      rw [sum_preorder, countKind_append, countKind_flatMap, map_range_length ih, countKind_joins]
      cases kind <;> simp [Node.children, Nat.add_comm]
  | optional _ ih =>
      rw [sum_preorder, countKind_append, ih]
      cases kind <;> simp [Node.children, Nat.add_comm]
  | zeroOrMore _ ih =>
      rw [sum_preorder, countKind_append, countKind_cons, countKind_loop, ih]
      cases kind <;> simp [Node.children, Nat.add_comm]
  | oneOrMore _ ih =>
      rw [sum_preorder, countKind_append, countKind_loop, ih]
      cases kind <;> simp [Node.children, Nat.add_comm]
  | counted quantifier _ ih =>
      rw [sum_preorder, countKind_cons, ih]
      cases kind <;> simp [Node.children, Nat.add_comm]
  -- whether there is a caption depends on the kind of the group
  | group groupKind _ ih =>
      rw [sum_preorder, countKind_append, countKind_append, countKind_captionOf, ih]
      by_cases hcapturing : groupKind = .capturing <;>
        cases kind <;> simp [Node.children, Primitive.kind, hcapturing, Nat.add_comm]
  | empty cursor =>
      rw [sum_preorder]
      cases kind <;> rfl

/-! ### Counting by the names of the nodes -/

/-- The number of members of a character class. -/
@[simp] def memberCount : Node → Nat
  | .charClass items _ => items.length
  | _ => 0

/-- The number of alternatives of a choice. -/
@[simp] def alternativeCount : Node → Nat
  | .choice alternatives => alternatives.length
  | _ => 0

/-- Whether a node is a group of a kind that has a caption. -/
@[simp] def isCaptionedGroup : Node → Bool
  | .group _ kind => kind != .capturing
  | _ => false

/-- How many of some nodes have a name. -/
def countNamed (nodes : List Node) (name : String) : Nat :=
  nodes.countP fun node => node.name == name

/-- A node is counted under its own name only. -/
@[simp] theorem countNamed_cons (node : Node) (nodes : List Node) (name : String) :
    countNamed (node :: nodes) name =
      countNamed nodes name + if node.name == name then 1 else 0 := List.countP_cons

/-- How many primitives of a kind some nodes draw of their own, by the names of the nodes. -/
@[simp] def countByName (nodes : List Node) : Kind → Nat
  | .box =>
    countNamed nodes "Literal" + countNamed nodes "Escape" + countNamed nodes "AnyChar" +
      countNamed nodes "AnchorStart" + countNamed nodes "AnchorEnd" +
      (nodes.map memberCount).sum
  | .caption =>
    countNamed nodes "CharClass" + countNamed nodes "Repeat" + nodes.countP isCaptionedGroup
  | .path =>
    2 * (nodes.map alternativeCount).sum + countNamed nodes "Optional" +
      2 * countNamed nodes "ZeroOrMore" + countNamed nodes "OneOrMore"
  | .arrow => countNamed nodes "ZeroOrMore" + countNamed nodes "OneOrMore"
  | .frame => countNamed nodes "Group"

/-- A node counts under its name for what it draws. -/
theorem countByName_cons (node : Node) (nodes : List Node) (kind : Kind) :
    countByName (node :: nodes) kind = ownCount node kind + countByName nodes kind := by
  cases node with
  | stray object => cases object <;> cases kind <;> simp [Node.name, Stray.name]
  | group content groupKind =>
      by_cases hcapturing : groupKind = .capturing <;>
        cases kind <;> simp [Node.name, hcapturing, List.countP_cons] <;> omega
  | _ => cases kind <;> simp [Node.name] <;> omega

/-- What the nodes contribute one by one is what the census by name comes to. -/
theorem sum_ownCount (nodes : List Node) (kind : Kind) :
    (nodes.map fun node => ownCount node kind).sum = countByName nodes kind := by
  induction nodes with
  | nil => cases kind <;> rfl
  | cons node nodes ih => rw [List.map_cons, List.sum_cons, ih, countByName_cons]

/-! ### The inventory -/

/-- What a drawing of a tree holds, by the census of the tree. -/
structure Inventory (node : Node) (drawn : List (Primitive α)) : Prop where
  /-- A box for each terminal and each member of a class. -/
  boxes : countKind .box drawn =
    countOf node.census.names "Literal" + countOf node.census.names "Escape" +
      countOf node.census.names "AnyChar" + countOf node.census.names "AnchorStart" +
      countOf node.census.names "AnchorEnd" + (node.preorder.map memberCount).sum
  /-- A caption for each class, each count in braces and each group that is not capturing. -/
  captions : countKind .caption drawn =
    countOf node.census.names "CharClass" + countOf node.census.names "Repeat" +
      node.preorder.countP isCaptionedGroup
  /-- Two paths for each alternative, one for each bypass and one for each way back. -/
  paths : countKind .path drawn =
    2 * (node.preorder.map alternativeCount).sum + countOf node.census.names "Optional" +
      2 * countOf node.census.names "ZeroOrMore" + countOf node.census.names "OneOrMore"
  /-- An arrowhead for each way back. -/
  arrows : countKind .arrow drawn =
    countOf node.census.names "ZeroOrMore" + countOf node.census.names "OneOrMore"
  /-- A frame for each group. -/
  frames : countKind .frame drawn = countOf node.census.names "Group"
  /-- The labels of the boxes, in the order in which they are drawn. -/
  labels : drawn.filterMap Primitive.label? = node.preorder.flatMap labelsOf
  /-- The texts of the captions, in the order in which they are drawn. -/
  texts : drawn.filterMap Primitive.text? = node.preorder.flatMap textsOf

/-- **A drawing has exactly the primitives that its tree calls for.** -/
theorem Draws.inventory (h : Draws style node cursor drawn finish) : Inventory node drawn := by
  have hcount (kind : Kind) : countKind kind drawn = countByName node.preorder kind :=
    (h.countKind_eq kind).trans (sum_ownCount node.preorder kind)
  constructor
  case labels => exact h.filterMap_eq_flatMap (readInOrder_label? style)
  case texts => exact h.filterMap_eq_flatMap (readInOrder_text? style)
  all_goals
    simp only [Node.count_census]
    exact hcount _

/-- **Nothing is lost or drawn twice.**  Whatever the numbers are that it is drawn with, a
proper tree is drawn, with exactly the primitives that its census asks for, and with the
labels and captions of its nodes in the order of the nodes. -/
theorem drawing_inventory (style : Style α) {node : Node} (proper : node.Proper)
    (cursor : Point α) :
    ∃ drawn finish, sketch style node cursor = ⟨drawn, .ok finish⟩ ∧ Inventory node drawn := by
  obtain ⟨drawn, finish, hdraws⟩ := exists_draws style proper cursor
  exact ⟨drawn, finish, hdraws.sketch_eq, hdraws.inventory⟩

/-- The hypothesis of `drawing_inventory` is satisfiable, in doubles of which one is no
number: a negated class, a counted group of alternatives, and a loop. -/
theorem drawing_inventory_mixed :
    (Node.sequence [.charClass [.literal "a", .range "0" "9"] true,
      .counted (.group (.choice [.anyChar, .empty]) .lookahead) "{2}",
      .zeroOrMore (.escape "\\d")]).Proper ∧
    ∃ drawn finish,
      sketch ({} : Style Float) (.sequence [.charClass [.literal "a", .range "0" "9"] true,
        .counted (.group (.choice [.anyChar, .empty]) .lookahead) "{2}",
        .zeroOrMore (.escape "\\d")]) ⟨0 / 0, 100⟩ = ⟨drawn, .ok finish⟩ ∧
      drawn.filterMap Primitive.label? = ["a", "0-9", "any character", "digit 0-9"] ∧
      drawn.filterMap Primitive.text? = ["None of:", "{2}", "(?=)"] := by
  have hproper : (Node.sequence [.charClass [.literal "a", .range "0" "9"] true,
      .counted (.group (.choice [.anyChar, .empty]) .lookahead) "{2}",
      .zeroOrMore (.escape "\\d")]).Proper := by decide
  obtain ⟨drawn, finish, hsketch, hinventory⟩ :=
    drawing_inventory ({} : Style Float) hproper ⟨0 / 0, 100⟩
  exact ⟨hproper, drawn, finish, hsketch, hinventory.labels.trans (by decide),
    hinventory.texts.trans (by decide)⟩

end Layout
end Railroad
