/-
# The lines of an outline

An outline lists every node of a tree and every member of its classes, the members directly
after their class and all else in preorder (`Node.listing`).  What it writes for each of them
begins with two spaces for each level of depth and with the name, and ends with a line feed.

| listed | line feeds in front of the last |
| --- | --- |
| class member, literal, escape | none, a text is shown in quotes |
| brace quantifier | those between its braces, it is shown as it is |
| anything else | none |

So there is one line for each of them unless a quantifier holds a line feed, and else one line
more for each line feed that it holds (`Node.outline_lines`).
-/

import Mathlib.Algebra.BigOperators.Group.List.Basic
import Mathlib.Algebra.Ring.Nat
import Mathlib.Data.List.Forall2
import Railroad.Proofs.Pattern.Outline
import Railroad.Proofs.Pattern.Visits

namespace Railroad
namespace Pattern

/-! ### Lines -/

/-- Whether a text is made of some lines, each with a line feed at its end and none before. -/
structure IsLines (lines : List (List Char)) (text : List Char) : Prop where
  /-- The text is made of the lines, with a line feed behind each. -/
  eq : text = lines.flatMap (· ++ ['\n'])
  /-- No line holds a line feed. -/
  whole : ∀ line ∈ lines, '\n' ∉ line

/-- Lines have the line feeds at their ends, and those inside. -/
theorem count_flatMap_lines (texts : List (List Char)) :
    (texts.flatMap (· ++ ['\n'])).count '\n' =
      texts.length + (texts.map fun text => text.count '\n').sum := by
  induction texts with
  | nil => rfl
  | cons text texts ih =>
      have hfeed : ['\n'].count '\n' = 1 := by decide
      rw [List.flatMap_cons, List.count_append, List.count_append, ih, hfeed, List.length_cons,
        List.map_cons, List.sum_cons]
      omega

/-- A text has as many lines as line feeds. -/
theorem IsLines.length_eq {lines : List (List Char)} {text : List Char} (h : IsLines lines text) :
    lines.length = text.count '\n' := by
  have hnone : lines.map (fun line => line.count '\n') = lines.map fun _ => 0 :=
    List.map_congr_left fun line hline => List.count_eq_zero.2 (h.whole line hline)
  rw [h.eq, count_flatMap_lines, hnone, List.map_const', List.sum_replicate_nat]
  omega

/-! ### What is listed -/

/-- What an outline lists. -/
inductive Listed where
  | part (node : Node)
  | member (item : ClassItem)

/-- What is shown of a member of a class is quoted, so there is no line feed in it. -/
theorem ClassItem.lineFeed_notMem_details (printable : Char → Bool) (item : ClassItem) :
    '\n' ∉ item.details printable := by
  cases item <;> simp [details, shown, Text.lineFeed_notMem_quoted]

/-- How many line feeds the quantifier of a node holds, if it is in braces. -/
def Node.quantifierFeeds : Node → Nat
  | counted _ quantifier => quantifier.toList.count '\n'
  | _ => 0

/-- **Only a brace quantifier is shown with line feeds.** -/
theorem Node.count_details (printable : Char → Bool) (node : Node) :
    (node.details printable).count '\n' = node.quantifierFeeds := by
  cases node with
  | counted item quantifier => exact List.count_cons_of_ne (by decide)
  | stray object => rfl
  | _ =>
      refine List.count_eq_zero.2 (lineFeed_notMem_details printable ?_)
      simp [name]

namespace Listed

/-- The name under which something is listed. -/
def name : Listed → String
  | part node => node.name
  | member item => item.name

/-- What is shown behind the name. -/
def details (printable : Char → Bool) : Listed → List Char
  | part node => node.details printable
  | member item => item.details printable

/-- How many line feeds the quantifier holds if a brace quantifier is listed. -/
def feeds : Listed → Nat
  | part node => node.quantifierFeeds
  | member _ => 0

section

variable (printable : Char → Bool) (listed : Listed)

/-- What is listed is shown by its name, which is of letters, and what can be told from it. -/
theorem isNamed : IsNamed listed.name (listed.details printable) := by
  cases listed with
  | part node => exact node.isNamed printable
  | member item => exact item.isNamed printable

/-- The only line feeds that are shown raw are those of a brace quantifier. -/
theorem count_details : (listed.details printable).count '\n' = listed.feeds := by
  cases listed with
  | part node => exact node.count_details printable
  | member item => exact List.count_eq_zero.2 (item.lineFeed_notMem_details printable)

end

end Listed

/-- Whether a line begins as that of something listed at the given depth: with two spaces for
each level and the name, of letters, which no letter follows. -/
def Begins (place : Listed × Nat) (line : List Char) : Prop :=
  ∃ details, IsNamed place.1.name details ∧
    line = List.replicate (2 * place.2) ' ' ++ (place.1.name.toList ++ details)

namespace Node

/-- What is listed for a node at the given depth: the node and its members. -/
def listedAt (place : Node × Nat) : List (Listed × Nat) :=
  (.part place.1, place.2) :: place.1.members.map fun item => (.member item, place.2 + 1)

/-- What the outline of a tree lists, each with its depth. -/
def listing (tree : Node) : List (Listed × Nat) := (tree.positions 0).flatMap listedAt

/-- A sum over what is listed: over the nodes, and over the members of each. -/
theorem sum_listing (tree : Node) (measure : Listed → Nat) :
    (tree.listing.map fun place => measure place.1).sum =
      (tree.preorder.map fun part =>
        measure (.part part) + (part.members.map fun item => measure (.member item)).sum).sum := by
  rw [listing, List.map_flatMap, List.flatMap_def, List.sum_flatten, List.map_map,
    ← map_fst_positions tree 0, List.map_map]
  simp only [Function.comp_def, listedAt, List.map_cons, List.map_map, List.sum_cons]

/-- All nodes are listed, and all members of classes. -/
theorem length_listing (tree : Node) :
    tree.listing.length =
      tree.census.nodes + (tree.preorder.map fun part => part.members.length).sum := by
  have hsum := tree.sum_listing fun _ => 1
  simp only [List.map_const', List.sum_replicate_nat, List.sum_map_add, Nat.mul_one] at hsum
  rw [hsum, length_preorder, nodes_census]

/-- So the line feeds that are shown raw are those of all brace quantifiers. -/
theorem sum_feeds_listing (tree : Node) :
    (tree.listing.map fun place => place.1.feeds).sum =
      (tree.preorder.map quantifierFeeds).sum := by
  have hsum := tree.sum_listing Listed.feeds
  simp only [Listed.feeds, List.map_const', List.sum_replicate_nat, Nat.mul_zero,
    Nat.add_zero] at hsum
  exact hsum

section

variable (printable : Char → Bool)

/-- What an outline writes for something listed, but for the line feed at its end. -/
def lineText (place : Listed × Nat) : List Char :=
  List.replicate (2 * place.2) ' ' ++ (place.1.name.toList ++ place.1.details printable)

/-- A line begins with its indentation and the name of what is listed. -/
theorem begins_lineText (place : Listed × Nat) : Begins place (lineText printable place) :=
  ⟨_, place.1.isNamed printable, rfl⟩

/-- A line has as many line feeds inside as its quantifier. -/
theorem count_lineText (place : Listed × Nat) :
    (lineText printable place).count '\n' = place.1.feeds := by
  have hletters := List.all_eq_true.1 (place.1.isNamed printable).letters
  have hname : '\n' ∉ place.1.name.toList := fun hmem =>
    absurd (hletters _ hmem) (by decide)
  have hindent : '\n' ∉ List.replicate (2 * place.2) ' ' := fun hmem =>
    absurd (List.eq_of_mem_replicate hmem) (by decide)
  rw [lineText, List.count_append, List.count_append, List.count_eq_zero.2 hindent,
    List.count_eq_zero.2 hname, Listed.count_details, Nat.zero_add, Nat.zero_add]

/-- The lines of what stands at a place and of its members. -/
theorem flatMap_line_listedAt (node : Node) (depth : Nat) :
    (listedAt (node, depth)).flatMap (fun place => lineText printable place ++ ['\n']) =
      (⟨depth, node.title printable⟩ :: node.members.map fun item =>
        (⟨depth + 1, item.title printable⟩ : Entry)).flatMap Entry.line := by
  simp only [listedAt, List.flatMap_cons, List.flatMap_map, lineText, Entry.line, Listed.name,
    Listed.details, title_eq, ClassItem.title_eq, List.append_assoc]

/-- The lines of an outline are those of what is listed, in the order of the nodes. -/
theorem flatMap_line_entries (tree : Node) (depth : Nat) :
    (tree.entries printable depth).flatMap Entry.line =
      ((tree.positions depth).flatMap listedAt).flatMap fun place =>
        lineText printable place ++ ['\n'] := by
  induction tree using induction_children generalizing depth with
  | step node ih =>
      -- the lines of the children, each one level further in
      have hchildren : (node.children.flatMap fun child =>
          (child.entries printable (depth + 1)).flatMap Entry.line) =
          node.children.flatMap fun child =>
            ((child.positions (depth + 1)).flatMap listedAt).flatMap fun place =>
              lineText printable place ++ ['\n'] :=
        List.flatMap_congr fun child hmem => ih child hmem (depth + 1)
      rw [entries_eq, entriesBelow, ← List.cons_append, List.flatMap_append,
        ← flatMap_line_listedAt, List.flatMap_assoc, hchildren, positions_eq, List.flatMap_cons,
        List.flatMap_append]
      simp only [List.flatMap_assoc]

/-- An outline writes its lines one after the other. -/
theorem outlineWith_eq (tree : Node) :
    tree.outlineWith printable =
      (tree.listing.map (lineText printable)).flatMap (· ++ ['\n']) := by
  rw [outlineWith, flatMap_line_entries, List.flatMap_map]
  rfl

/-- An outline has a line feed for each node, each member of a class and each line feed that a
brace quantifier holds. -/
theorem count_outlineWith (tree : Node) :
    (tree.outlineWith printable).count '\n' =
      tree.census.nodes + (tree.preorder.map fun part => part.members.length).sum +
        (tree.preorder.map quantifierFeeds).sum := by
  have hfeeds : ((tree.listing.map (lineText printable)).map fun text => text.count '\n').sum =
      (tree.preorder.map quantifierFeeds).sum := by
    rw [List.map_map, ← sum_feeds_listing]
    exact congrArg List.sum (List.map_congr_left fun place _ => count_lineText printable place)
  rw [outlineWith_eq, count_flatMap_lines, hfeeds, List.length_map, length_listing]

end

/-- Whether a text shows a tree line by line: it has one line for each node and for each member
of a class, and in the order in which these are listed every line begins with two spaces for
each level of depth and with the name. -/
def IsShownByLine (tree : Node) (text : List Char) : Prop :=
  ∃ lines, IsLines lines text ∧
    lines.length = tree.census.nodes + (tree.preorder.map fun part => part.members.length).sum ∧
    List.Forall₂ Begins tree.listing lines

/-- Nothing but the line feeds of quantifiers is in the way of one line for each node. -/
theorem quantifierFeeds_eq_zero_of_isShownByLine (printable : Char → Bool) {tree : Node}
    (h : tree.IsShownByLine (tree.outlineWith printable)) :
    ∀ part ∈ tree.preorder, part.quantifierFeeds = 0 := by
  obtain ⟨lines, hlines, hlength, -⟩ := h
  have hcount := tree.count_outlineWith printable
  rw [← hlines.length_eq, hlength] at hcount
  have hsum : (tree.preorder.map quantifierFeeds).sum = 0 := by omega
  intro part hpart
  exact List.sum_eq_zero_iff_forall_eq_nat.1 hsum _ (List.mem_map_of_mem hpart)

/-- **The lines of an outline.**  What an outline writes begins, for each node and each member
in their order, with two spaces for each level of depth and the name, and ends with a line feed.
It has one line for each of them and one more for each line feed in a brace quantifier, so that
it shows the tree line by line exactly if no brace quantifier holds a line feed. -/
theorem outline_lines (printable : Char → Bool) (tree : Node) :
    (∃ texts, tree.outlineWith printable = texts.flatMap (· ++ ['\n']) ∧
      List.Forall₂ Begins tree.listing texts) ∧
    (∀ lines, IsLines lines (tree.outlineWith printable) → lines.length =
      tree.census.nodes + (tree.preorder.map fun part => part.members.length).sum +
        (tree.preorder.map quantifierFeeds).sum) ∧
    (tree.IsShownByLine (tree.outlineWith printable) ↔
      ∀ part ∈ tree.preorder, part.quantifierFeeds = 0) := by
  -- line by line the name is where it should be, whatever the quantifiers hold
  have hbegins : List.Forall₂ Begins tree.listing (tree.listing.map (lineText printable)) :=
    List.forall₂_map_right_iff.2 <|
      List.forall₂_same.2 fun place _ => begins_lineText printable place
  refine ⟨⟨_, tree.outlineWith_eq printable, hbegins⟩, fun lines hlines => ?_,
    quantifierFeeds_eq_zero_of_isShownByLine printable, fun hfeeds => ?_⟩
  · rw [hlines.length_eq, count_outlineWith]
  · have hwhole : ∀ line ∈ tree.listing.map (lineText printable), '\n' ∉ line := by
      -- without a line feed in any quantifier there is none inside any line
      have hsum : (tree.listing.map fun place => place.1.feeds).sum = 0 := by
        rw [sum_feeds_listing]
        exact List.sum_eq_zero_iff_forall_eq_nat.2 (List.forall_mem_map.2 hfeeds)
      refine List.forall_mem_map.2 fun place hplace => List.count_eq_zero.1 ?_
      rw [count_lineText]
      exact List.sum_eq_zero_iff_forall_eq_nat.1 hsum _ (List.mem_map_of_mem hplace)
    exact ⟨_, ⟨tree.outlineWith_eq printable, hwhole⟩, by rw [List.length_map, length_listing],
      hbegins⟩

/-- The outline of a pattern with a line feed in a quantifier does not show its tree line by
line: two nodes, three lines. -/
theorem not_isShownByLine :
    ∃ tree, parse "a\x7b\n\x7d" = .ok tree ∧
      tree.outline = "Repeat \x7b\n\x7d\n  Literal('a')\n" ∧
      tree.census.nodes + (tree.preorder.map fun part => part.members.length).sum = 2 ∧
      ¬ tree.IsShownByLine tree.outline.toList := by
  have hparse : parse "a\x7b\n\x7d" = .ok (.counted (.literal "a") "\x7b\n\x7d") := by
    decide +kernel
  refine ⟨_, hparse, by decide +kernel, by decide +kernel, fun hshown => ?_⟩
  rw [outline, String.toList_ofList] at hshown
  have hfeeds := quantifierFeeds_eq_zero_of_isShownByLine _ hshown
    (.counted (.literal "a") "\x7b\n\x7d") List.mem_cons_self
  exact absurd hfeeds (by decide)

end Node
end Pattern
end Railroad
