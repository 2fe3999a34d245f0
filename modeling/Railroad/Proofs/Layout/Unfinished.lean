/-
# Drawings that are left unfinished

A stray object ends the drawing of a tree where it stands.  What was drawn by then stays,
and is what any repaired tree begins with:

| | with the stray object | repaired |
| --- | --- | --- |
| before the object | drawn | the same is drawn |
| in its place | the drawing ends | any proper tree is drawn |
| behind it | nothing | the rest is drawn, other stray objects replaced as well |
| connectors, frames and loops around it | nothing | drawn behind all of this |

The object that is reported is the first one among the nodes of the tree, the same for
which the tree has no pattern (`Reports`).  `StopsAtStrays` puts this together, and
`stops_at_strays` proves it of every tree.
-/

import Railroad.Layout.Session
import Railroad.Proofs.Layout.Canvas
import Railroad.Proofs.Layout.Stopped
import Railroad.Proofs.Pattern.FirstStray

namespace Railroad
namespace Layout

open Pattern Drawing

variable {α β γ : Type}

/-! ### The object that is reported -/

namespace Sketch

variable {first : Sketch α β} {next : β → Sketch α γ} {strays others : List Stray}

/-- Of two things drawn one after the other, the stray objects of the first are met first. -/
theorem reports_bind (h : Reports strays first.outcome)
    (hnext : ∀ value, Reports others (next value).outcome) :
    Reports (strays ++ others) (first >>= next).outcome := by
  obtain ⟨drawn, object | value⟩ := first
  · exact h.append_error others
  · exact h.append_ok (hnext value)

/-- What is drawn without fail behind a sketch reports nothing more. -/
theorem reports_bind_of_ok (h : Reports strays first.outcome)
    (hnext : ∀ value, Reports [] (next value).outcome) :
    Reports strays (first >>= next).outcome := by
  have happend := reports_bind h hnext
  rwa [List.append_nil] at happend

/-- Drawing primitives meets no stray object. -/
theorem reports_draw_bind (drawn : List (Primitive α)) {next : Unit → Sketch α γ}
    (h : Reports strays (next ()).outcome) : Reports strays (draw drawn >>= next).outcome := h

end Sketch

section

variable [Scalar α] (style : Style α)

mutual

/-- **Drawing a tree reports its first stray object.** -/
theorem reports_sketch : ∀ (node : Node) (cursor : Point α),
    Reports node.strays (sketch style node cursor).outcome
  | .literal _, _ => by rw [sketch]; exact .ok _
  | .escape _, _ => by rw [sketch]; exact .ok _
  | .anyChar, _ => by rw [sketch]; exact .ok _
  | .anchorStart, _ => by rw [sketch]; exact .ok _
  | .anchorEnd, _ => by rw [sketch]; exact .ok _
  | .charClass _ _, _ => by rw [sketch]; exact .ok _
  | .sequence items, cursor => by rw [sketch]; exact reports_sketchItems items cursor
  -- what is drawn behind the parts of a node meets no stray object
  | .choice alternatives, cursor => by
      rw [sketch]
      exact Sketch.reports_bind_of_ok (reports_sketchBranches cursor _ 0 alternatives)
        fun _ => .ok _
  | .optional item, _ => by
      rw [sketch]
      exact Sketch.reports_bind_of_ok (reports_sketch item _) fun _ => .ok _
  | .zeroOrMore item, _ => by
      rw [sketch]
      exact Sketch.reports_bind_of_ok (reports_sketch item _) fun _ => .ok _
  | .oneOrMore item, _ => by
      rw [sketch]
      exact Sketch.reports_bind_of_ok (reports_sketch item _) fun _ => .ok _
  | .counted item _, _ => by
      rw [sketch]
      exact Sketch.reports_draw_bind _ (reports_sketch item _)
  | .group content kind, cursor => by
      rw [sketch]
      exact Sketch.reports_bind_of_ok
        (Sketch.reports_draw_bind _ (reports_sketch content _)) fun _ => .ok _
  | .empty, _ => by rw [sketch]; exact .ok _
  | .stray object, _ => by rw [sketch]; exact .error object

/-- A row ends at the first stray object of its items. -/
theorem reports_sketchItems : ∀ (items : List Node) (cursor : Point α),
    Reports (Node.straysIn items) (sketchItems style items cursor).outcome
  | [], _ => by rw [sketchItems]; exact .ok _
  | item :: items, cursor => by
      rw [sketchItems]
      exact Sketch.reports_bind (reports_sketch item cursor) (reports_sketchItems items)

/-- A choice ends at the first stray object of its alternatives. -/
theorem reports_sketchBranches (cursor : Point α) (count : Nat) :
    ∀ (index : Nat) (alternatives : List Node),
      Reports (Node.straysIn alternatives)
        (sketchBranches style cursor count index alternatives).outcome
  | _, [] => by rw [sketchBranches]; exact .ok _
  | index, alternative :: alternatives => by
      rw [sketchBranches]
      exact Sketch.reports_bind (reports_sketch alternative _) fun _ =>
        Sketch.reports_bind_of_ok (reports_sketchBranches cursor count (index + 1) alternatives)
          fun _ => .ok _

end

variable {style}

/-- A drawing ends at a stray object exactly if the tree has one, and the first one is
why. -/
theorem sketch_outcome_eq_error_iff {node : Node} {cursor : Point α} {object : Stray} :
    (sketch style node cursor).outcome = .error object ↔
      node.preorder.findSome? Node.stray? = some object := by
  rw [(reports_sketch style node cursor).error_iff, Node.head?_strays]

/-- A tree whose drawing comes to its end is proper. -/
theorem proper_of_outcome {node : Node} {cursor finish : Point α}
    (h : (sketch style node cursor).outcome = .ok finish) : node.Proper := by
  have hreports := reports_sketch style node cursor
  rwa [h] at hreports

end

/-- The nodes in the list of a tree are those at or below its root. -/
theorem mem_preorder_iff {root node : Node} : node ∈ root.preorder ↔ Below root node := by
  induction root using Node.induction_children with
  | step root ih =>
      rw [Node.preorder_eq, List.mem_cons, List.mem_flatMap, Below,
        Relation.ReflTransGen.cases_head_iff, eq_comm]
      exact or_congr_right (exists_congr fun child => and_congr_right fun hmem => ih child hmem)

/-- There is a first stray object exactly if one is reached from the root. -/
theorem exists_first_stray_iff {root : Node} :
    (∃ object, root.preorder.findSome? Node.stray? = some object) ↔
      ∃ object, Below root (.stray object) := by
  constructor
  · rintro ⟨object, h⟩
    obtain ⟨node, hmem, hstray⟩ := List.exists_of_findSome?_eq_some h
    cases node with
    | stray other => exact ⟨other, mem_preorder_iff.1 hmem⟩
    | _ => cases hstray
  · rintro ⟨object, h⟩
    exact Option.isSome_iff_exists.1
      (List.findSome?_isSome_iff.2 ⟨_, mem_preorder_iff.2 h, rfl⟩)

/-! ### What a repaired tree draws -/

mutual

/-- Whether a tree is another one with a proper tree in the place of every stray object,
each with its own. -/
inductive Repaired : Node → Node → Prop where
  /-- Any proper tree takes the place of a stray object, … -/
  | stray (object : Stray) {node : Node} : node.Proper → Repaired (.stray object) node
  /-- … and a part without stray objects stays. -/
  | proper {node : Node} : node.Proper → Repaired node node
  | sequence {items items' : List Node} :
      RepairedAll items items' → Repaired (.sequence items) (.sequence items')
  | choice {alternatives alternatives' : List Node} :
      RepairedAll alternatives alternatives' →
        Repaired (.choice alternatives) (.choice alternatives')
  | optional {item item' : Node} : Repaired item item' → Repaired (.optional item) (.optional item')
  | zeroOrMore {item item' : Node} :
      Repaired item item' → Repaired (.zeroOrMore item) (.zeroOrMore item')
  | oneOrMore {item item' : Node} :
      Repaired item item' → Repaired (.oneOrMore item) (.oneOrMore item')
  | counted (quantifier : String) {item item' : Node} :
      Repaired item item' → Repaired (.counted item quantifier) (.counted item' quantifier)
  | group (kind : GroupKind) {content content' : Node} :
      Repaired content content' → Repaired (.group content kind) (.group content' kind)

/-- Whether the trees of a list are those of another one, repaired place by place. -/
inductive RepairedAll : List Node → List Node → Prop where
  | nil : RepairedAll [] []
  | cons {node node' : Node} {nodes nodes' : List Node} :
      Repaired node node' → RepairedAll nodes nodes' →
        RepairedAll (node :: nodes) (node' :: nodes')

end

mutual

/-- Every tree can be repaired. -/
theorem exists_repaired : ∀ node : Node, ∃ tree, Repaired node tree
  | .stray object => ⟨.empty, .stray object rfl⟩
  | .sequence items => (exists_repairedAll items).imp' _ fun _ => .sequence
  | .choice alternatives => (exists_repairedAll alternatives).imp' _ fun _ => .choice
  | .optional item => (exists_repaired item).imp' _ fun _ => .optional
  | .zeroOrMore item => (exists_repaired item).imp' _ fun _ => .zeroOrMore
  | .oneOrMore item => (exists_repaired item).imp' _ fun _ => .oneOrMore
  | .counted item quantifier => (exists_repaired item).imp' _ fun _ => .counted quantifier
  | .group content kind => (exists_repaired content).imp' _ fun _ => .group kind
  | .literal _ | .escape _ | .anyChar | .anchorStart | .anchorEnd | .charClass _ _ | .empty =>
      ⟨_, .proper rfl⟩

/-- All of some trees can be repaired. -/
theorem exists_repairedAll : ∀ nodes : List Node, ∃ trees, RepairedAll nodes trees
  | [] => ⟨[], .nil⟩
  | node :: nodes => by
      obtain ⟨tree, h⟩ := exists_repaired node
      obtain ⟨trees, hs⟩ := exists_repairedAll nodes
      exact ⟨tree :: trees, .cons h hs⟩

end

/-- Repairing takes no tree away, and adds none. -/
theorem RepairedAll.length_eq : ∀ {nodes nodes' : List Node},
    RepairedAll nodes nodes' → nodes.length = nodes'.length
  | _, _, .nil => rfl
  | _, _, .cons _ h => congrArg (· + 1) h.length_eq

mutual

/-- A repaired tree is proper. -/
theorem Repaired.isProper : ∀ {node tree : Node}, Repaired node tree → tree.Proper
  | _, _, .stray _ h => h
  | _, _, .proper h => h
  | _, _, .sequence h => Node.proper_sequence_iff.2 h.isProper
  | _, _, .choice h => Node.proper_choice_iff.2 h.isProper
  | _, _, .optional h => Node.proper_optional_iff.2 h.isProper
  | _, _, .zeroOrMore h => Node.proper_zeroOrMore_iff.2 h.isProper
  | _, _, .oneOrMore h => Node.proper_oneOrMore_iff.2 h.isProper
  | _, _, .counted _ h => Node.proper_counted_iff.2 h.isProper
  | _, _, .group _ h => Node.proper_group_iff.2 h.isProper

/-- What was repaired is proper. -/
theorem RepairedAll.isProper : ∀ {nodes trees : List Node},
    RepairedAll nodes trees → ∀ tree ∈ trees, tree.Proper
  | _, _, .nil => fun _ hmem => absurd hmem List.not_mem_nil
  | _, _, .cons h hs => List.forall_mem_cons.2 ⟨h.isProper, hs.isProper⟩

end

namespace Sketch

/-- Whether one sketch leads to another: they are the same, or the first ends at a stray
object and the other begins with all that it drew. -/
def LeadsTo (sketch other : Sketch α β) : Prop :=
  sketch = other ∨ (∃ object, sketch.outcome = .error object) ∧ sketch.drawn <+: other.drawn

namespace LeadsTo

/-- A sketch leads to itself. -/
theorem refl (sketch : Sketch α β) : sketch.LeadsTo sketch := .inl rfl

/-- A sketch that draws nothing before it stops leads to any other. -/
theorem stop (object : Stray) (other : Sketch α β) : (stop object).LeadsTo other :=
  .inr ⟨⟨object, rfl⟩, List.nil_prefix⟩

/-- What is drawn next matters only if the first sketches are the same. -/
theorem bind {first second : Sketch α β} {next other : β → Sketch α γ}
    (h : first.LeadsTo second)
    (hnext : first = second → ∀ value, (next value).LeadsTo (other value)) :
    (first >>= next).LeadsTo (second >>= other) := by
  -- either both go on alike, or the first has stopped before anything more was drawn
  obtain rfl | ⟨⟨object, hstop⟩, hprefix⟩ := h
  · obtain ⟨drawn, object | value⟩ := first
    · exact .refl _
    · obtain heq | ⟨hstop, hprefix⟩ := hnext rfl value
      · rw [bind_ok, bind_ok, heq]
        exact .refl _
      · exact .inr ⟨hstop, (List.prefix_append_right_inj drawn).2 hprefix⟩
  · obtain ⟨drawn, outcome⟩ := first
    obtain rfl : outcome = .error object := hstop
    refine .inr ⟨⟨object, rfl⟩, hprefix.trans ?_⟩
    obtain ⟨drawn', object' | value⟩ := second
    · exact List.prefix_rfl
    · exact List.prefix_append ..

/-- The same is drawn behind both. -/
theorem bind_same {first second : Sketch α β} (h : first.LeadsTo second)
    (next : β → Sketch α γ) : (first >>= next).LeadsTo (second >>= next) :=
  h.bind fun _ value => .refl (next value)

end LeadsTo
end Sketch

section

variable [Scalar α] (style : Style α)

mutual

/-- **What is drawn up to a stray object is what every repaired tree begins with.** -/
theorem Repaired.leadsTo : ∀ {node tree : Node}, Repaired node tree → ∀ cursor : Point α,
    (sketch style node cursor).LeadsTo (sketch style tree cursor)
  | _, _, .stray object _, _ => by rw [sketch]; exact .stop object _
  | _, _, .proper _, _ => .refl _
  | _, _, .sequence h, cursor => by rw [sketch, sketch]; exact h.leadsTo_items cursor
  | _, _, .choice h, cursor => by
      rw [sketch, sketch, ← h.length_eq]
      exact (h.leadsTo_branches cursor _ 0).bind_same _
  | _, _, .optional h, _ => by rw [sketch, sketch]; exact (h.leadsTo _).bind_same _
  | _, _, .zeroOrMore h, _ => by rw [sketch, sketch]; exact (h.leadsTo _).bind_same _
  | _, _, .oneOrMore h, _ => by rw [sketch, sketch]; exact (h.leadsTo _).bind_same _
  | _, _, .counted _ h, _ => by
      rw [sketch, sketch]
      exact Sketch.LeadsTo.bind (.refl _) fun _ _ => h.leadsTo _
  | _, _, .group _ h, cursor => by
      rw [sketch, sketch]
      -- A frame is drawn only if the content is all there, and then there is one content.
      refine Sketch.LeadsTo.bind (.bind (.refl _) fun _ _ => h.leadsTo _) fun hinside _ => ?_
      rw [hinside]
      exact .refl _

/-- What a row draws before it stops is drawn by the repaired row as well. -/
theorem RepairedAll.leadsTo_items : ∀ {items items' : List Node}, RepairedAll items items' →
    ∀ cursor : Point α, (sketchItems style items cursor).LeadsTo (sketchItems style items' cursor)
  | _, _, .nil, _ => .refl _
  | _, _, .cons h hs, cursor => by
      rw [sketchItems, sketchItems]
      exact (h.leadsTo cursor).bind fun _ middle => hs.leadsTo_items middle

/-- What a choice draws before it stops is drawn by the repaired choice as well. -/
theorem RepairedAll.leadsTo_branches : ∀ {alternatives alternatives' : List Node},
    RepairedAll alternatives alternatives' → ∀ (cursor : Point α) (count index : Nat),
      (sketchBranches style cursor count index alternatives).LeadsTo
        (sketchBranches style cursor count index alternatives')
  | _, _, .nil, _, _, _ => .refl _
  | _, _, .cons h hs, cursor, count, index => by
      rw [sketchBranches, sketchBranches]
      exact (h.leadsTo _).bind fun _ _ =>
        (hs.leadsTo_branches cursor count (index + 1)).bind_same _

end

variable {style}

/-- A repaired tree is drawn to its end, and begins with what was drawn before the stray
object ended the drawing. -/
theorem Repaired.sketch_eq {node tree : Node} (h : Repaired node tree) {cursor : Point α}
    {object : Stray} (hstop : (sketch style node cursor).outcome = .error object) :
    ∃ rest finish, sketch style tree cursor =
      ⟨(sketch style node cursor).drawn ++ rest, .ok finish⟩ := by
  obtain ⟨drawn, finish, hdraws⟩ := exists_draws style h.isProper cursor
  have hleads := h.leadsTo style cursor
  rw [hdraws.sketch_eq] at hleads ⊢
  obtain heq | ⟨-, rest, hrest⟩ := hleads
  · rw [heq] at hstop
    cases hstop
  · exact ⟨rest, finish, by rw [hrest]⟩

/-- A session keeps what was drawn of a node that was left unfinished, and its cursor. -/
theorem Session.add_of_error {session : Session α} {node : Node} {object : Stray}
    (h : (sketch session.style node session.cursor).outcome = .error object) :
    session.add node =
      (⟨session.style, session.cursor,
        session.drawn ++ (sketch session.style node session.cursor).drawn⟩, some object) := by
  rw [add]
  split
  · rename_i finish hfinish
    cases h.symm.trans hfinish
  · rename_i other hother
    obtain rfl := Except.error.inj (h.symm.trans hother)
    rfl

/-! ### Writing and drawing together -/

/-- How it ends when a tree, which may hold stray objects, is written and when it is drawn
from a cursor. -/
structure StopsAtStrays (style : Style α) (node : Node) (cursor : Point α) : Prop where
  /-- Writing the tree ends at a stray object exactly if the tree has one, and then at the
  first among its nodes in preorder. -/
  written : ∀ object, node.toPattern = .error object ↔
    node.preorder.findSome? Node.stray? = some object
  /-- Drawing it ends at the same object, whatever is on the list. -/
  drawn : ∀ list object, ((paint style node cursor).on list).1 = .error object ↔
    node.preorder.findSome? Node.stray? = some object
  /-- The tree has one exactly if one is reached through the children of nodes, … -/
  reached : (∃ object, node.preorder.findSome? Node.stray? = some object) ↔
    ∃ object, Below node (.stray object)
  /-- … so a tree that was read from a pattern has none. -/
  parsed : ∀ pattern, parse pattern = .ok node → ¬ ∃ object, Below node (.stray object)
  /-- Both say of what type the object is. -/
  messages : ∀ list object, node.preorder.findSome? Node.stray? = some object →
    node.toPattern.mapError unspellable = .error ("Cannot serialize " ++ object.name) ∧
    ((paint style node cursor).on list).1.mapError undrawable =
      .error ("Cannot lay out " ++ object.name)
  /-- A drawing that ended at a stray object has left what was on the list, and has added
  what is drawn in front of this object.  Every repaired tree adds the same first when it is
  drawn from the same cursor.  A session stays at this cursor. -/
  unfinished : ∀ list object, ((paint style node cursor).on list).1 = .error object →
    ∃ added, ((paint style node cursor).on list).2 = list ++ added ∧
      Session.add ⟨style, cursor, list⟩ node = (⟨style, cursor, list ++ added⟩, some object) ∧
      (∃ entry, Reaches style node cursor added (.stray object) entry) ∧
      (∃ tree, Repaired node tree) ∧
      ∀ tree, Repaired node tree → ∃ rest finish,
        (paint style tree cursor).on list = (.ok finish, list ++ (added ++ rest))

/-- **A stray object ends a drawing where it stands**, and leaves a part of what every
repaired tree draws. -/
theorem stops_at_strays (style : Style α) (node : Node) (cursor : Point α) :
    StopsAtStrays style node cursor where
  written _ := Node.toPattern_eq_error_iff
  drawn list object := by
    rw [paint_on]
    exact sketch_outcome_eq_error_iff
  reached := exists_first_stray_iff
  parsed pattern hparse := by
    rintro ⟨object, hbelow⟩
    obtain ⟨first, hfirst⟩ := exists_first_stray_iff.2 ⟨object, hbelow⟩
    rw [← Node.head?_strays, proper_of_parse hparse] at hfirst
    cases hfirst
  messages list object hfirst := by
    rw [paint_on, Node.toPattern_eq_error_iff.2 hfirst, sketch_outcome_eq_error_iff.2 hfirst]
    exact ⟨rfl, rfl⟩
  -- drawing stops at the first stray object and keeps what is there
  unfinished list object hstop := by
    rw [paint_on] at hstop
    refine ⟨(sketch style node cursor).drawn, ?kept, ?session, exists_reaches_stray hstop,
      exists_repaired node, ?repaired⟩
    case kept => rw [paint_on]
    case session => exact Session.add_of_error hstop
    case repaired =>
      intro tree hrepaired
      obtain ⟨rest, finish, hsketch⟩ := hrepaired.sketch_eq hstop
      exact ⟨rest, finish, by rw [paint_on, hsketch]⟩

end

end Layout
end Railroad
