/-
# A tree is told by its outline

The entries of a tree are that of its root and, all further in, those of what stands below
the root (`Node.entries_eq`): the members of a class, or the trees of the children one after
the other.  So where the entries of a tree end is told by their depth, and a list of trees
is cut into its trees by the entries that are no further in than the first.

| told by | what is told |
| --- | --- |
| the title of the root | the root but for what stands below it |
| the entries further in, in a class | the members |
| the entries further in, elsewhere | the children |

This goes for trees whose nodes are legible (`Node.entries_append_inj`).  The trees of
patterns are, so with the lines telling the entries a pattern is told by the outline of its
tree (`parse_eq_of_outline_eq`).
-/

import Railroad.Proofs.Pattern.Preorder
import Railroad.Proofs.Pattern.RoundTrip
import Railroad.Proofs.Pattern.Titles

namespace Railroad
namespace Pattern
namespace Node

/-! ### What stands below a node -/

/-- The members of a class. -/
def members : Node → List ClassItem
  | charClass items _ => items
  | _ => []

/-- Whether a node is a class. -/
def isClass : Node → Bool
  | charClass _ _ => true
  | _ => false

/-- A node with the given members or children in the place of its own. -/
def refill : Node → List ClassItem → List Node → Node
  | charClass _ negated, items, _ => charClass items negated
  | sequence _, _, nodes => sequence nodes
  | choice _, _, nodes => choice nodes
  | optional _, _, [item] => optional item
  | zeroOrMore _, _, [item] => zeroOrMore item
  | oneOrMore _, _, [item] => oneOrMore item
  | counted _ quantifier, _, [item] => counted item quantifier
  | group _ kind, _, [content] => group content kind
  | node, _, _ => node

/-- A node is told by what is left of it and by what stands below it. -/
theorem refill_hollow (node : Node) : node.hollow.refill node.members node.children = node := by
  cases node <;> rfl

/-- A node is a class whether or not something stands below it. -/
theorem isClass_hollow (node : Node) : node.hollow.isClass = node.isClass := by
  cases node <;> rfl

/-- Below a class there are members, and no children. -/
theorem children_of_isClass {node : Node} (h : node.isClass = true) : node.children = [] := by
  cases node with
  | charClass items negated => rfl
  | _ => cases h

/-- Below any other node there are no members. -/
theorem members_of_isClass {node : Node} (h : node.isClass = false) : node.members = [] := by
  cases node with
  | charClass items negated => cases h
  | _ => rfl

/-! ### The entries of a tree -/

section

variable (printable : Char → Bool) {depth : Nat} {x y : Node}

/-- The entries of what stands below a node at the given depth. -/
def entriesBelow (depth : Nat) (node : Node) : List Entry :=
  (node.members.map fun item => ⟨depth + 1, item.title printable⟩) ++
    node.children.flatMap (entries printable (depth + 1))

/-- The entries of several nodes stand one behind the other. -/
theorem entriesOfList_eq_flatMap (depth : Nat) (nodes : List Node) :
    entriesOfList printable depth nodes = nodes.flatMap (entries printable depth) := by
  induction nodes with
  | nil => rfl
  | cons node nodes ih => rw [entriesOfList, ih, List.flatMap_cons]

/-- The entries of a tree are that of its root and those of what stands below it. -/
theorem entries_eq (depth : Nat) (node : Node) :
    node.entries printable depth =
      ⟨depth, node.title printable⟩ :: node.entriesBelow printable depth := by
  cases node <;>
    simp [entries, entriesBelow, members, children, entriesOfList_eq_flatMap]

/-- What stands below a node is further in. -/
theorem depth_le_of_mem_entries (x : Node) (depth : Nat) :
    ∀ e ∈ x.entries printable depth, depth ≤ e.depth := by
  induction x using induction_children generalizing depth with
  | step x ih =>
      rw [entries_eq]
      refine List.forall_mem_cons.2 ⟨Nat.le_refl depth, fun e he => ?_⟩
      rcases List.mem_append.1 he with he | he
      · obtain ⟨item, -, rfl⟩ := List.mem_map.1 he
        exact Nat.le_succ depth
      · obtain ⟨child, hmem, he⟩ := List.mem_flatMap.1 he
        exact Nat.le_of_succ_le (ih child hmem (depth + 1) e he)

/-- What stands below a node is listed further in than the node. -/
theorem depth_lt_of_mem_entriesBelow :
    ∀ e ∈ x.entriesBelow printable depth, depth < e.depth := by
  intro e he
  rcases List.mem_append.1 he with he | he
  · obtain ⟨item, -, rfl⟩ := List.mem_map.1 he
    exact Nat.lt_succ_self depth
  · obtain ⟨child, -, he⟩ := List.mem_flatMap.1 he
    exact depth_le_of_mem_entries printable child (depth + 1) e he

/-- Every entry of a tree of legible nodes shows where it ends. -/
theorem isTitle_of_mem_entries (x : Node) (h : ∀ part ∈ x.preorder, part.IsLegible)
    (depth : Nat) : ∀ e ∈ x.entries printable depth, IsTitle e.text := by
  induction x using induction_children generalizing depth with
  | step x ih =>
      rw [preorder_eq, List.forall_mem_cons] at h
      rw [entries_eq]
      refine List.forall_mem_cons.2 ⟨isTitle printable h.1, fun e he => ?_⟩
      rcases List.mem_append.1 he with he | he
      · obtain ⟨item, -, rfl⟩ := List.mem_map.1 he
        exact item.isTitle printable
      · obtain ⟨child, hmem, he⟩ := List.mem_flatMap.1 he
        exact ih child hmem
          (fun part hpart => h.2 part (List.mem_flatMap_of_mem hmem hpart)) (depth + 1) e he

/-! ### Telling a tree from its entries -/

/-- Whether a list of entries begins no further in than the given depth. -/
def EndsAt (depth : Nat) (rest : List Entry) : Prop := ∀ e ∈ rest.head?, e.depth ≤ depth

/-- A list of trees is told by its entries if each of the trees is told by its own, whatever
follows. -/
theorem flatMap_entries_inj {xs ys : List Node}
    (htree : ∀ x ∈ xs, ∀ y ∈ ys, ∀ {rest rest' : List Entry}, EndsAt depth rest →
      EndsAt depth rest' →
      x.entries printable depth ++ rest = y.entries printable depth ++ rest' →
      x = y ∧ rest = rest')
    (h : xs.flatMap (entries printable depth) = ys.flatMap (entries printable depth)) :
    xs = ys := by
  have hne (x : Node) (rest : List Entry) : [] ≠ x.entries printable depth ++ rest := by
    rw [entries_eq]
    exact (List.cons_ne_nil _ _).symm
  -- the entries of a tree end where one follows that is no further in
  have hends (nodes : List Node) : EndsAt depth (nodes.flatMap (entries printable depth)) := by
    cases nodes with
    | nil => exact fun e he => nomatch he
    | cons node nodes =>
        rw [List.flatMap_cons, entries_eq]
        rintro _ ⟨⟩
        exact Nat.le_refl depth
  induction xs generalizing ys with
  | nil =>
      cases ys with
      | nil => rfl
      | cons y ys => exact absurd h (hne y _)
  | cons x xs ih =>
      cases ys with
      | nil => exact absurd h.symm (hne x _)
      | cons y ys =>
          rw [List.flatMap_cons, List.flatMap_cons] at h
          obtain ⟨rfl, hrest⟩ := htree x List.mem_cons_self y List.mem_cons_self (hends xs)
            (hends ys) h
          rw [ih (fun x hx y hy => htree x (List.mem_cons_of_mem _ hx) y
            (List.mem_cons_of_mem _ hy)) hrest]

/-- **The entries of a tree show the tree and where it ends.** -/
theorem entries_append_inj (hx : ∀ part ∈ x.preorder, part.IsLegible)
    (hy : ∀ part ∈ y.preorder, part.IsLegible) {rest rest' : List Entry}
    (hrest : EndsAt depth rest) (hrest' : EndsAt depth rest')
    (h : x.entries printable depth ++ rest = y.entries printable depth ++ rest') :
    x = y ∧ rest = rest' := by
  induction x using induction_children generalizing y depth rest rest' with
  | step x ih =>
      rw [preorder_eq, List.forall_mem_cons] at hx hy
      rw [entries_eq, entries_eq] at h
      obtain ⟨hroot, htail⟩ := List.cons.inj h
      -- the title tells the root, and the depth where what stands below it ends
      have hhollow : x.hollow = y.hollow :=
        hollow_eq_of_title_eq printable hx.1 hy.1 (congrArg Entry.text hroot)
      obtain ⟨hbelow, rfl⟩ :=
        append_inj_of_span (p := fun e : Entry => depth < e.depth)
          (depth_lt_of_mem_entriesBelow printable) (depth_lt_of_mem_entriesBelow printable)
          (fun e he => Nat.not_lt.2 (hrest e he)) (fun e he => Nat.not_lt.2 (hrest' e he)) htail
      have hclass : x.isClass = y.isClass := by rw [← isClass_hollow, hhollow, isClass_hollow]
      refine ⟨?_, rfl⟩
      rw [← refill_hollow x, ← refill_hollow y, hhollow]
      cases hc : x.isClass with
      | true =>
          rw [hc] at hclass
          rw [entriesBelow, entriesBelow, children_of_isClass hc,
            children_of_isClass hclass.symm, List.flatMap_nil, List.append_nil,
            List.append_nil] at hbelow
          have hmembers : x.members = y.members :=
            (List.map_injective_iff.2 fun item item' he =>
              ClassItem.title_injective printable (congrArg Entry.text he)) hbelow
          rw [children_of_isClass hc, children_of_isClass hclass.symm, hmembers]
      | false =>
          rw [hc] at hclass
          rw [entriesBelow, entriesBelow, members_of_isClass hc,
            members_of_isClass hclass.symm] at hbelow
          have hchildren : x.children = y.children :=
            flatMap_entries_inj printable (fun child hchild child' hchild' {_ _} =>
              ih child hchild (fun part hpart => hx.2 part (List.mem_flatMap_of_mem hchild hpart))
                (fun part hpart => hy.2 part (List.mem_flatMap_of_mem hchild' hpart))) hbelow
          rw [members_of_isClass hc, members_of_isClass hclass.symm, hchildren]

/-- **A tree of legible nodes is told by its outline.** -/
theorem outlineWith_inj (hx : ∀ part ∈ x.preorder, part.IsLegible)
    (hy : ∀ part ∈ y.preorder, part.IsLegible)
    (h : x.outlineWith printable = y.outlineWith printable) : x = y := by
  have hentries := flatMap_line_injective (isTitle_of_mem_entries printable x hx 0)
    (isTitle_of_mem_entries printable y hy 0) h
  have hends : EndsAt 0 [] := fun e he => nomatch he
  exact (entries_append_inj printable hx hy hends hends (congrArg (· ++ []) hentries)).1

end

/-! ### Canonical trees -/

/-- A canonical node is legible: the only brace that closes is the last character of a
quantifier. -/
theorem Canonical.isLegible {g : Nat} {node : Node} (h : Canonical g node) : node.IsLegible := by
  -- only a brace quantifier shows what could be taken for something else, and in the grammar it
  -- has one closing brace
  have hatom {node : Node} (h : IsAtom (IsContent g) node) : node.IsLegible := by
    cases h <;> trivial
  have hitem {node : Node} (h : IsItem (IsContent g) node) : node.IsLegible := by
    cases h with
    | bare h => exact hatom h
    | @counted atom text _ htext =>
        refine ⟨'{' :: text, String.toList_ofList, ?_⟩
        rw [List.mem_cons, not_or]
        exact ⟨by decide, htext⟩
    | _ => trivial
  cases h with
  | sequence h =>
      cases h with
      | item h => exact hitem h
      | _ => trivial
  | choice _ _ => trivial

end Node

/-- **A tree loses nothing in its outline.**  Whichever characters are printable, two
patterns whose trees have the same outline have the same tree, and are the same pattern. -/
theorem parse_eq_of_outline_eq (printable : Char → Bool) {p q : String} {x y : Node}
    (hp : parse p = .ok x) (hq : parse q = .ok y)
    (h : x.outlineWith printable = y.outlineWith printable) : x = y ∧ p = q := by
  have hlegible {pattern : String} {tree : Node} (hparse : parse pattern = .ok tree) :
      ∀ part ∈ tree.preorder, part.IsLegible := by
    intro part hpart
    obtain ⟨k, hk⟩ := (parse_eq_ok_iff.1 hparse).1.of_mem_preorder hpart
    exact hk.isLegible
  obtain rfl : x = y := Node.outlineWith_inj printable (hlegible hp) (hlegible hq) h
  have hpattern := toPattern_of_parse hp
  rw [toPattern_of_parse hq] at hpattern
  exact ⟨rfl, (Except.ok.inj hpattern).symm⟩

/-- The hypotheses of `parse_eq_of_outline_eq` are satisfiable: a quantifier that looks like
a line of the outline. -/
theorem parse_eq_of_outline_eq_imitated :
    ∃ x y, parse "a\x7b\n  Literal('b')\x7d" = .ok x ∧
      parse "a\x7b\n  Literal('b')\x7d" = .ok y ∧
      x.outlineWith (fun _ => true) = y.outlineWith (fun _ => true) ∧ x = y := by
  have h : parse "a\x7b\n  Literal('b')\x7d" =
      .ok (.counted (.literal "a") "\x7b\n  Literal('b')\x7d") := by decide +kernel
  exact ⟨_, _, h, h, rfl, (parse_eq_of_outline_eq (fun _ => true) h h rfl).1⟩

end Pattern
end Railroad
